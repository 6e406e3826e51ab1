import Wallpiper.Capture.HeaderBuffer

/-!
# Splitting in place reads the fields

As long as the string in the buffer has its NUL, every access of the receiver
is inside, and what it reads are the fields of the text.
-/

namespace Wallpiper.Capture

open Foundations.CText

/-! ## Strings in a buffer -/

theorem stringFrom_append {s : Bytes} (h : ∀ c ∈ s, c ≠ 0) (post : Bytes) (i : ℕ) :
    HeaderBuf.stringFrom (s ++ 0 :: post) i = .ok s := by
  induction s generalizing i with
  | nil => exact if_pos rfl
  | cons c s ih =>
      have hc : c ≠ 0 := h c List.mem_cons_self
      rw [List.cons_append, HeaderBuf.stringFrom, if_neg hc,
        ih fun d hd ↦ h d (List.mem_cons_of_mem c hd)]
      rfl

namespace HeaderBuf

theorem string_eq {buf : HeaderBuf} {pre s post : Bytes}
    (hbytes : buf.bytes = pre ++ (s ++ 0 :: post)) (h : ∀ c ∈ s, c ≠ 0) :
    buf.string pre.length = .ok s := by
  rw [string, hbytes, List.drop_left]
  exact stringFrom_append h post pre.length

theorem read_eq {buf : HeaderBuf} {pre post : Bytes} {c : UInt8}
    (hbytes : buf.bytes = pre ++ c :: post) : buf.read pre.length = .ok c := by
  rw [read, hbytes, List.getElem?_append_right (Nat.le_refl _), Nat.sub_self]
  rfl

theorem write_eq {buf : HeaderBuf} {pre post : Bytes} {c : UInt8}
    (hbytes : buf.bytes = pre ++ c :: post) (d : UInt8) :
    ∃ buf', buf.write pre.length d = .ok buf' ∧ buf'.bytes = pre ++ d :: post := by
  have hinside : pre.length < 256 := by
    rw [← buf.size, hbytes, List.length_append, List.length_cons]
    omega
  rw [write, if_pos hinside]
  refine ⟨_, rfl, ?_⟩
  simp only [hbytes, List.set_append_right _ _ (Nat.le_refl _), Nat.sub_self, List.set_cons_zero]

theorem writeFrom_eq {buf : HeaderBuf} {pre old post data : Bytes}
    (hbytes : buf.bytes = pre ++ (old ++ post)) (hlength : data.length = old.length) :
    ∃ buf', buf.writeFrom pre.length data = .ok buf' ∧ buf'.bytes = pre ++ (data ++ post) := by
  induction data generalizing buf pre old with
  | nil =>
      obtain rfl : old = [] := List.length_eq_zero_iff.mp hlength.symm
      exact ⟨buf, rfl, hbytes⟩
  | cons d data ih =>
      obtain ⟨c, old, rfl⟩ : ∃ c old', old = c :: old' :=
        List.exists_cons_of_length_pos (by rw [← hlength, List.length_cons]; omega)
      obtain ⟨buf₁, hwrite, hbytes₁⟩ := write_eq hbytes d
      have hsplit : buf₁.bytes = (pre ++ [d]) ++ (old ++ post) := by
        rw [hbytes₁]
        simp
      obtain ⟨buf', hwrites, hbytes'⟩ := ih hsplit (Nat.succ_injective hlength)
      rw [List.length_append, List.length_singleton] at hwrites
      refine ⟨buf', ?_, ?_⟩
      · rw [writeFrom, hwrite]
        exact hwrites
      · rw [hbytes']
        simp

/-- The copy of a short string starts its buffer. -/
theorem copyString_eq (buf : HeaderBuf) {header : HeaderBuf} {text post : Bytes}
    (hbytes : header.bytes = text ++ 0 :: post) (hnonul : ∀ c ∈ text, c ≠ 0) :
    ∃ buf' post', buf.copyString header = .ok buf' ∧ buf'.bytes = text ++ 0 :: post' := by
  have hlength : text.length + 1 ≤ 256 := by
    rw [← header.size, hbytes, List.length_append, List.length_cons]
    omega
  have hstring : header.string 0 = .ok text := @string_eq _ [] _ _ hbytes hnonul
  have hold : (text ++ [0]).length = (buf.bytes.take (text.length + 1)).length := by
    rw [List.length_take, buf.size, List.length_append, List.length_singleton,
      Nat.min_eq_left hlength]
  have hsplit : buf.bytes = [] ++ (buf.bytes.take (text.length + 1) ++
      buf.bytes.drop (text.length + 1)) := by
    rw [List.take_append_drop, List.nil_append]
  obtain ⟨buf', hwrites, hbytes'⟩ := writeFrom_eq hsplit hold
  have hwhole : snprintf 256 text = text := List.take_of_length_le (by omega)
  refine ⟨buf', buf.bytes.drop (text.length + 1), ?_, ?_⟩
  · rw [copyString, hstring]
    simp only [bind, Except.bind, hwhole]
    exact hwrites
  · rw [hbytes']
    simp

end HeaderBuf

/-! ## One field -/

/-- The rest of the text that is being split, and what is around it. -/
structure Splitting.Left (st : Splitting) (pre r post : Bytes) : Prop where
  bytes : st.buf.bytes = pre ++ (r ++ 0 :: post)
  save : st.save = pre.length
  nonul : ∀ c ∈ r, c ≠ 0

theorem skipBlanks_append {blanks : Bytes} (h : ∀ c ∈ blanks, isFieldBlank c = true) {c : UInt8}
    (hc : isFieldBlank c = false) (post : Bytes) (i : ℕ) :
    skipBlanks (blanks ++ c :: post) i = .ok (i + blanks.length) := by
  induction blanks generalizing i with
  | nil => exact if_neg (by simp [hc])
  | cons b blanks ih =>
      rw [List.cons_append, skipBlanks, if_pos (h b List.mem_cons_self),
        ih (fun d hd ↦ h d (List.mem_cons_of_mem b hd)), List.length_cons, Nat.add_assoc,
        Nat.add_comm 1]

theorem fieldEnd_append {field : Bytes}
    (h : ∀ c ∈ field, c ≠ 0 ∧ isFieldBlank c = false) {c : UInt8}
    (hc : c = 0 ∨ isFieldBlank c = true) (post : Bytes) (i : ℕ) :
    fieldEnd (field ++ c :: post) i = .ok (i + field.length) := by
  induction field generalizing i with
  | nil => exact if_pos hc
  | cons b field ih =>
      obtain ⟨hb, hblank⟩ := h b List.mem_cons_self
      rw [List.cons_append, fieldEnd, if_neg (by simp [hb, hblank]),
        ih (fun d hd ↦ h d (List.mem_cons_of_mem b hd)), List.length_cons, Nat.add_assoc,
        Nat.add_comm 1]

/-- Later buffers keep the part before the rest, and nothing is written when
nothing is left. -/
def Keeps (buf buf' : HeaderBuf) (pre r : Bytes) : Prop :=
  pre <+: buf'.bytes ∧ (r = [] → buf' = buf)

/-- Without another field nothing is written. -/
theorem strtokR_none {st : Splitting} {pre r post : Bytes} (h : st.Left pre r post)
    (hblank : ∀ c ∈ r, isFieldBlank c = true) :
    ∃ st', strtokR st = .ok (none, st') ∧ st'.buf = st.buf ∧ st'.Left (pre ++ r) [] post := by
  have hskip : skipBlanks (st.buf.bytes.drop st.save) st.save =
      .ok (pre.length + r.length) := by
    rw [h.bytes, h.save, List.drop_left]
    exact skipBlanks_append hblank (by decide) post _
  have hbytes : st.buf.bytes = (pre ++ r) ++ 0 :: post := by
    rw [h.bytes, List.append_assoc]
  have hread := HeaderBuf.read_eq hbytes
  rw [List.length_append] at hread
  refine ⟨{ st with save := pre.length + r.length }, ?_, rfl, ?_⟩
  · rw [strtokR, hskip]
    simp only [bind, Except.bind, hread, if_true]
  · exact ⟨hbytes, (List.length_append ..).symm, by simp⟩

theorem tokens_field {blanks field rest : Bytes} (hblanks : ∀ c ∈ blanks, isFieldBlank c = true)
    (hne : field ≠ []) (hfield : ∀ c ∈ field, isFieldBlank c = false)
    (hrest : ∀ c ∈ rest.head?, isFieldBlank c = true) :
    tokens isFieldBlank (blanks ++ (field ++ rest)) =
      field :: tokens isFieldBlank rest.tail := by
  rw [tokens_append_of_delim hblanks]
  cases rest with
  | nil => rw [List.append_nil, tokens_eq_singleton hne hfield, List.tail_nil, tokens_nil]
  | cons c rest => rw [tokens_append_cons hne hfield (hrest c rfl), List.tail_cons]

/-- A field ends at a blank or at the terminator. -/
theorem exists_stop {rest : Bytes} (hrest : ∀ c ∈ rest.head?, isFieldBlank c = true)
    (post : Bytes) :
    ∃ c tail, rest ++ 0 :: post = c :: tail ∧ (c = 0 ∨ isFieldBlank c = true) := by
  cases rest with
  | nil => exact ⟨0, post, rfl, .inl rfl⟩
  | cons c rest => exact ⟨c, rest ++ 0 :: post, rfl, .inr (hrest c rfl)⟩

/-- The next field and the text behind it. -/
theorem strtokR_some {st : Splitting} {pre blanks field rest post : Bytes}
    (h : st.Left pre (blanks ++ (field ++ rest)) post)
    (hblanks : ∀ c ∈ blanks, isFieldBlank c = true) (hne : field ≠ [])
    (hfield : ∀ c ∈ field, isFieldBlank c = false)
    (hrest : ∀ c ∈ rest.head?, isFieldBlank c = true) :
    ∃ st' pre', strtokR st = .ok (some (pre ++ blanks).length, st') ∧ pre <+: pre' ∧
      st'.Left pre' rest.tail post ∧
      ∀ buf', Keeps st'.buf buf' pre' rest.tail →
        buf'.string (pre ++ blanks).length = .ok field := by
  have hnonul : ∀ c ∈ field, c ≠ 0 := fun c hc ↦ h.nonul c (by simp [hc])
  have hbytes : st.buf.bytes = (pre ++ blanks) ++ (field ++ (rest ++ 0 :: post)) := by
    rw [h.bytes]
    simp only [List.append_assoc]
  obtain ⟨f, field', rfl⟩ := List.exists_cons_of_ne_nil hne
  have hskip : skipBlanks (st.buf.bytes.drop st.save) st.save = .ok (pre ++ blanks).length := by
    rw [h.save, hbytes, List.append_assoc, List.drop_left, List.length_append]
    exact skipBlanks_append hblanks (hfield f List.mem_cons_self) _ _
  have hread : st.buf.read (pre ++ blanks).length = .ok f := HeaderBuf.read_eq hbytes
  have hf : f ≠ 0 := hnonul f List.mem_cons_self
  have hdrop : st.buf.bytes.drop (pre ++ blanks).length =
      (f :: field') ++ (rest ++ 0 :: post) := by
    rw [hbytes, List.drop_left]
  have hfieldBytes : ∀ c ∈ f :: field', c ≠ 0 ∧ isFieldBlank c = false :=
    fun c hc ↦ ⟨hnonul c hc, hfield c hc⟩
  have hstopLength : (pre ++ blanks).length + (f :: field').length =
      (pre ++ blanks ++ (f :: field')).length := (List.length_append ..).symm
  have hpre : pre <+: pre ++ blanks ++ (f :: field') := by
    rw [List.append_assoc]
    exact List.prefix_append _ _
  have hstop : fieldEnd (st.buf.bytes.drop (pre ++ blanks).length) (pre ++ blanks).length =
      .ok (pre ++ blanks ++ (f :: field')).length := by
    obtain ⟨c, tail, htail, hc⟩ := exists_stop hrest post
    rw [hdrop, htail, ← hstopLength]
    exact fieldEnd_append hfieldBytes hc _ _
  cases rest with
  | nil =>
      have hend : st.buf.bytes = (pre ++ blanks ++ (f :: field')) ++ 0 :: post := by
        rw [hbytes]
        simp only [List.append_assoc, List.nil_append]
      have hnul := HeaderBuf.read_eq hend
      refine ⟨{ st with save := (pre ++ blanks ++ (f :: field')).length },
        pre ++ blanks ++ (f :: field'), ?_, hpre, ⟨hend, rfl, by simp⟩, ?_⟩
      · rw [strtokR, hskip]
        simp only [bind, Except.bind, hread, if_neg hf, hstop, hnul, if_true]
      · rintro buf' ⟨_, hsame⟩
        rw [hsame rfl]
        exact HeaderBuf.string_eq hbytes hnonul
  | cons c rest =>
      have hend : st.buf.bytes =
          (pre ++ blanks ++ (f :: field')) ++ c :: (rest ++ 0 :: post) := by
        rw [hbytes]
        simp only [List.append_assoc, List.cons_append]
      have hc : c ≠ 0 := h.nonul c (by simp)
      have hreadStop := HeaderBuf.read_eq hend
      obtain ⟨buf₁, hwrite, hbytes₁⟩ := HeaderBuf.write_eq hend 0
      refine ⟨{ buf := buf₁, save := (pre ++ blanks ++ (f :: field')).length + 1 },
        pre ++ blanks ++ (f :: field') ++ [0], ?_, hpre.trans (List.prefix_append _ _), ?_, ?_⟩
      · rw [strtokR, hskip]
        simp only [bind, Except.bind, hread, if_neg hf, hstop, hreadStop, if_neg hc, hwrite]
      · refine ⟨?_, ?_, ?_⟩
        · rw [hbytes₁, List.tail_cons]
          simp
        · rw [@List.length_append _ _ [0]]
          rfl
        · intro d hd
          exact h.nonul d (by simp only [List.tail_cons] at hd; simp [hd])
      · rintro buf' ⟨⟨later, hlater⟩, _⟩
        have hfinal : buf'.bytes = (pre ++ blanks) ++ ((f :: field') ++ 0 :: later) := by
          rw [← hlater]
          simp
        exact HeaderBuf.string_eq hfinal hnonul

/-! ## All fields -/

/-- A text is blank, or it has a first field. -/
theorem blank_or_field (r : Bytes) :
    (∀ c ∈ r, isFieldBlank c = true) ∨
      ∃ blanks field rest, r = blanks ++ (field ++ rest) ∧
        (∀ c ∈ blanks, isFieldBlank c = true) ∧ field ≠ [] ∧
          (∀ c ∈ field, isFieldBlank c = false) ∧ ∀ c ∈ rest.head?, isFieldBlank c = true := by
  induction r with
  | nil => exact .inl (by simp)
  | cons c r ih =>
      by_cases hc : isFieldBlank c = true
      · rcases ih with hblank | ⟨blanks, field, rest, rfl, hblanks, hfield⟩
        · exact .inl (List.forall_mem_cons.mpr ⟨hc, hblank⟩)
        · exact .inr ⟨c :: blanks, field, rest, rfl, List.forall_mem_cons.mpr ⟨hc, hblanks⟩, hfield⟩
      · refine .inr ⟨[], c :: r.takeWhile (fun c ↦ !isFieldBlank c),
          r.dropWhile (fun c ↦ !isFieldBlank c), ?_, by simp, List.cons_ne_nil _ _, ?_, ?_⟩
        · rw [List.nil_append, List.cons_append, List.takeWhile_append_dropWhile]
        · refine List.forall_mem_cons.mpr ⟨Bool.eq_false_iff.mpr hc, ?_⟩
          intro d hd
          simpa using List.mem_takeWhile_imp hd
        · intro d hd
          have hhead := List.head?_dropWhile_not (fun c ↦ !isFieldBlank c) r
          rw [Option.mem_def.mp hd] at hhead
          simpa using hhead

theorem nextFields_eq (n : ℕ) {st : Splitting} {pre r post : Bytes} (h : st.Left pre r post) :
    ∃ fields st', nextFields n st = .ok (fields, st') ∧ Keeps st.buf st'.buf pre r ∧
      List.Forall₂ (fun i field ↦ st'.buf.string i = .ok field) fields
        ((tokens isFieldBlank r).take n) := by
  induction n generalizing st pre r with
  | zero =>
      refine ⟨[], st, rfl, ⟨?_, fun _ ↦ rfl⟩, ?_⟩
      · rw [h.bytes]
        exact List.prefix_append _ _
      · rw [List.take_zero]
        exact .nil
  | succ n ih =>
      rcases blank_or_field r with hblank | ⟨blanks, field, rest, rfl, hblanks, hne, hfield, hrest⟩
      · obtain ⟨st₁, htok, hbuf, hleft⟩ := strtokR_none h hblank
        obtain ⟨fields, st', hfields, hkeeps, hforall⟩ := ih hleft
        have hsame : st'.buf = st.buf := (hkeeps.2 rfl).trans hbuf
        have hnone := tokens_eq_nil hblank
        refine ⟨fields, st', ?_, ⟨?_, fun _ ↦ hsame⟩, ?_⟩
        · rw [nextFields, htok]
          simp only [bind, Except.bind, hfields, Option.toList_none, List.nil_append]
        · rw [hsame, h.bytes]
          exact List.prefix_append _ _
        · rw [tokens_nil, List.take_nil] at hforall
          rw [hnone, List.take_nil]
          exact hforall
      · obtain ⟨st₁, pre', htok, hpre, hleft, hstring⟩ :=
          strtokR_some h hblanks hne hfield hrest
        obtain ⟨fields, st', hfields, hkeeps, hforall⟩ := ih hleft
        have htokens := tokens_field hblanks hne hfield hrest
        refine ⟨(pre ++ blanks).length :: fields, st', ?_, ⟨hpre.trans hkeeps.1, ?_⟩, ?_⟩
        · rw [nextFields, htok]
          simp only [bind, Except.bind, hfields, Option.toList_some, List.singleton_append]
        · intro hnil
          exact absurd (congrArg (tokens isFieldBlank) hnil) (by rw [htokens]; simp)
        · rw [htokens, List.take_succ_cons]
          exact .cons (hstring _ hkeeps) hforall

/-! ## Events -/

def bufEvent (args : List Bytes) (fds : List ℤ) : Option CaptureEvent :=
  match args with
  | slotS :: widthS :: heightS :: _ :: strideS :: modifierS :: rest =>
      if fds.length < 1 then none
      else
        let out := { CaptureEvent.zero .buf with
          slot := readU32 slotS
          width := readU32 widthS
          height := readU32 heightS
          stride := readU32 strideS
          modifier := readU64 modifierS
          fds := fds.take 2 }
        match rest with
        | geomXS :: geomYS :: _ =>
            some { out with
              hasGeometry := true, geomX := readI32 geomXS, geomY := readI32 geomYS }
        | _ => some out
  | _ => none

def frameEvent (args : List Bytes) (fds : List ℤ) : Option CaptureEvent :=
  match args with
  | slotS :: _ => some { CaptureEvent.zero .frame with slot := readU32 slotS, fds := fds.take 1 }
  | [] => none

def shmEvent (args : List Bytes) (fds : List ℤ) : Option CaptureEvent :=
  match args with
  | widthS :: heightS :: strideS :: _ =>
      if fds.length < 1 then none
      else
        some { CaptureEvent.zero .shm with
          width := readU32 widthS
          height := readU32 heightS
          stride := readU32 strideS
          fds := fds.take 1 }
  | _ => none

/-- The event of a line, by the kind that its first field names. -/
def fieldsEvent (fields : List Bytes) (fds : List ℤ) : Option CaptureEvent :=
  match fields with
  | [] => none
  | tok :: args =>
      if tok = bytesOf "BUF" then bufEvent args fds
      else if tok = bytesOf "FRAME" then frameEvent args fds
      else if tok = bytesOf "SHM" then shmEvent args fds
      else none

theorem parseEvent_eq (header : Bytes) (fds : List ℤ) :
    parseEvent header fds =
      fieldsEvent (tokens isFieldBlank (snprintf 256 (cString header))) fds := rfl

section

variable {st : Splitting} {pre r post : Bytes}

theorem parseFrameIn_eq (h : st.Left pre r post) (fds : List ℤ) :
    parseFrameIn st fds = .ok (frameEvent (tokens isFieldBlank r) fds) := by
  obtain ⟨fields, st', hfields, _, hforall⟩ := nextFields_eq 1 h
  rw [parseFrameIn, hfields]
  generalize tokens isFieldBlank r = args at hforall ⊢
  match args, fields, hforall with
  | [], [], _ => rfl
  | slotS :: args, [slot], .cons hslot _ =>
      simp only [bind, Except.bind, HeaderBuf.readU32, hslot, Except.map]
      rfl

theorem parseShmIn_eq (h : st.Left pre r post) (fds : List ℤ) :
    parseShmIn st fds = .ok (shmEvent (tokens isFieldBlank r) fds) := by
  obtain ⟨fields, st', hfields, _, hforall⟩ := nextFields_eq 3 h
  rw [parseShmIn, hfields]
  generalize tokens isFieldBlank r = args at hforall ⊢
  match args, fields, hforall with
  | [], [], _ => rfl
  | [_], [_], _ => rfl
  | [_, _], [_, _], _ => rfl
  | widthS :: heightS :: strideS :: args, [width, height, stride],
      .cons hwidth (.cons hheight (.cons hstride _)) =>
      simp only [bind, Except.bind, shmEvent, HeaderBuf.readU32, hwidth, hheight, hstride,
        Except.map]
      split
      · rfl
      · rfl

theorem parseBufIn_eq (h : st.Left pre r post) (fds : List ℤ) :
    parseBufIn st fds = .ok (bufEvent (tokens isFieldBlank r) fds) := by
  obtain ⟨fields, st', hfields, _, hforall⟩ := nextFields_eq 8 h
  rw [parseBufIn, hfields]
  generalize tokens isFieldBlank r = args at hforall ⊢
  match args, fields, hforall with
  | [], [], _ => rfl
  | [_], [_], _ => rfl
  | [_, _], [_, _], _ => rfl
  | [_, _, _], [_, _, _], _ => rfl
  | [_, _, _, _], [_, _, _, _], _ => rfl
  | [_, _, _, _, _], [_, _, _, _, _], _ => rfl
  | slotS :: widthS :: heightS :: _ :: strideS :: modifierS :: rest,
      slot :: width :: height :: _ :: stride :: modifier :: geometry,
      .cons hslot (.cons hwidth (.cons hheight (.cons _ (.cons hstride
        (.cons hmodifier hrest))))) =>
      simp only [bind, Except.bind, bufEvent, HeaderBuf.readU32, HeaderBuf.readU64, hslot,
        hwidth, hheight, hstride, hmodifier, Except.map]
      split
      · rfl
      · match rest, geometry, hrest with
        | [], [], _ => rfl
        | [_], [_], _ => rfl
        | geomXS :: geomYS :: rest, [geomX, geomY], .cons hx (.cons hy _) =>
            simp only [HeaderBuf.readI32, hx, hy, Except.map]

end

/-- `parse_event` reads the fields of the header's text. -/
theorem parseEventIn_eq (buf : HeaderBuf) {header : HeaderBuf} {text post : Bytes}
    (hbytes : header.bytes = text ++ 0 :: post) (hnonul : ∀ c ∈ text, c ≠ 0) (fds : List ℤ) :
    parseEventIn buf header fds = .ok (fieldsEvent (tokens isFieldBlank text) fds) := by
  obtain ⟨copy, post', hcopy, hcopyBytes⟩ := buf.copyString_eq hbytes hnonul
  have hleft : Splitting.Left { buf := copy, save := 0 } [] text post' := ⟨hcopyBytes, rfl, hnonul⟩
  rcases blank_or_field text with hblank | ⟨blanks, field, rest, rfl, hblanks, hne, hfield, hrest⟩
  · obtain ⟨st', htok, _, _⟩ := strtokR_none hleft hblank
    rw [parseEventIn, hcopy, tokens_eq_nil hblank]
    simp only [bind, Except.bind, htok]
    rfl
  · obtain ⟨st', pre', htok, _, hleft', hstring⟩ :=
      strtokR_some hleft hblanks hne hfield hrest
    have htag : st'.buf.string (([] : Bytes) ++ blanks).length = .ok field := by
      apply hstring
      refine ⟨?_, fun _ ↦ rfl⟩
      rw [hleft'.bytes]
      exact List.prefix_append _ _
    rw [parseEventIn, hcopy, tokens_field hblanks hne hfield hrest]
    simp only [bind, Except.bind, htok, htag, fieldsEvent, parseBufIn_eq hleft',
      parseFrameIn_eq hleft', parseShmIn_eq hleft']
    split
    · rfl
    · split
      · rfl
      · split
        · rfl
        · rfl

/-! ## Receiving -/

/-- The terminator is written inside the buffer: the datagram is shorter, or its
last byte that fits is trimmed. -/
def TerminatorFits (dgram : Datagram) : Prop :=
  dgram.header.length < 256 ∨ ∃ c ∈ dgram.header[255]?, isTrailingBlank c = true

instance (dgram : Datagram) : Decidable (TerminatorFits dgram) :=
  inferInstanceAs (Decidable (_ ∨ _))

theorem trimmed_eq {buf : HeaderBuf} {data rest : Bytes} (hbytes : buf.bytes = data ++ rest) :
    buf.trimmed data.length = .ok (data.rdropWhile isTrailingBlank).length := by
  induction data using List.reverseRecOn generalizing rest with
  | nil => rfl
  | append_singleton data c ih =>
      have hsplit : buf.bytes = data ++ c :: rest := by
        rw [hbytes, List.append_assoc, List.singleton_append]
      rw [List.length_append, List.length_singleton, HeaderBuf.trimmed, HeaderBuf.read_eq hsplit]
      simp only [bind, Except.bind]
      by_cases hc : isTrailingBlank c = true
      · rw [if_pos hc, ih hsplit, List.rdropWhile_concat_pos _ _ _ hc]
      · rw [if_neg hc, List.rdropWhile_concat_neg _ _ _ hc, List.length_append,
          List.length_singleton]

theorem terminatorFits_iff (dgram : Datagram) :
    TerminatorFits dgram ↔
      ((dgram.header.take 256).rdropWhile isTrailingBlank).length < 256 := by
  have hle : ((dgram.header.take 256).rdropWhile isTrailingBlank).length ≤
      (dgram.header.take 256).length := (List.rdropWhile_prefix _ _).length_le
  have htake := List.length_take (i := 256) (l := dgram.header)
  unfold TerminatorFits
  by_cases hshort : dgram.header.length < 256
  · exact iff_of_true (.inl hshort) (by omega)
  · have hlast : dgram.header.take 256 = dgram.header.take 255 ++ [dgram.header[255]] :=
      (List.take_append_getElem (by omega)).symm
    have hget : dgram.header[255]? = some dgram.header[255] := List.getElem?_eq_getElem _
    have hprefix : (dgram.header.take 255).length = 255 := by
      rw [List.length_take]
      omega
    rw [hlast, hget]
    by_cases hc : isTrailingBlank dgram.header[255] = true
    · rw [List.rdropWhile_concat_pos _ _ _ hc]
      have hrest := (List.rdropWhile_prefix isTrailingBlank (dgram.header.take 255)).length_le
      exact iff_of_true (.inr ⟨_, rfl, hc⟩) (by omega)
    · rw [List.rdropWhile_concat_neg _ _ _ hc, List.length_append, hprefix]
      refine iff_of_false ?_ (by simp)
      rintro (hlt | ⟨c, hmem, hblank⟩)
      · exact hshort hlt
      · exact hc (Option.some.inj hmem ▸ hblank)

/-- What is read as a string, up to the first NUL of the text or to the one
behind it. -/
theorem exists_cString (text post : Bytes) :
    ∃ post', text ++ 0 :: post = cString text ++ 0 :: post' := by
  have hsplit := List.takeWhile_append_dropWhile (p := (· ≠ (0 : UInt8))) (l := text)
  cases hdrop : text.dropWhile (· ≠ 0) with
  | nil =>
      rw [hdrop, List.append_nil] at hsplit
      exact ⟨post, by rw [cString, hsplit]⟩
  | cons c rest =>
      have hhead := List.head?_dropWhile_not (· ≠ (0 : UInt8)) text
      rw [hdrop] at hhead hsplit
      obtain rfl : c = 0 := by simpa using hhead
      exact ⟨rest ++ 0 :: post, by
        conv_lhs => rw [← hsplit]
        rw [cString, List.append_assoc, List.cons_append]⟩

/-- The fields of the text that arrives. -/
def headerFields (dgram : Datagram) : List Bytes :=
  tokens isFieldBlank (cString ((dgram.header.take 256).rdropWhile isTrailingBlank))

/-- The copy of the header does not cut it. -/
theorem wpRecvCaptureEvent_eq {dgram : Datagram} (hfits : TerminatorFits dgram) :
    wpRecvCaptureEvent dgram =
      fieldsEvent (headerFields dgram) (dgram.fds.take wpCaptureMaxFds) := by
  have hevent : wpRecvCaptureEvent dgram =
      parseEvent ((dgram.header.take 256).rdropWhile isTrailingBlank)
        (dgram.fds.take wpCaptureMaxFds) := rfl
  have hlength := (terminatorFits_iff dgram).mp hfits
  rw [hevent, parseEvent_eq, headerFields]
  generalize (dgram.header.take 256).rdropWhile isTrailingBlank = text at hlength ⊢
  have hshort : snprintf 256 (cString text) = cString text := by
    apply List.take_of_length_le
    have hle := (List.takeWhile_prefix (p := (· ≠ (0 : UInt8))) (l := text)).length_le
    rw [cString]
    omega
  rw [hshort]

/-- With a terminator inside, the receiver returns the event of the datagram and
closes what it rejects; otherwise its first access outside is the terminator. -/
theorem wpRecvCaptureEventIn_eq (header buf : HeaderBuf) (dgram : Datagram) :
    wpRecvCaptureEventIn header buf dgram =
      if TerminatorFits dgram then
        .ok { event := wpRecvCaptureEvent dgram
              closed := if (wpRecvCaptureEvent dgram).isSome then []
                else dgram.fds.take wpCaptureMaxFds }
      else .error ⟨256⟩ := by
  have hfilled : (header.fill dgram.header).bytes =
      dgram.header.take 256 ++ header.bytes.drop (dgram.header.take 256).length := rfl
  have htrimmed := trimmed_eq hfilled
  have hfds : (installedFds dgram).take wpCaptureMaxFds = dgram.fds.take wpCaptureMaxFds := by
    rw [installedFds, List.take_take]
    rfl
  rw [wpRecvCaptureEventIn]
  simp only [htrimmed, hfds, bind, Except.bind]
  generalize hT : (dgram.header.take 256).rdropWhile isTrailingBlank = T at *
  by_cases hfits : TerminatorFits dgram
  · have hlength : T.length < 256 := hT ▸ (terminatorFits_iff dgram).mp hfits
    obtain ⟨c, rest, hbytes⟩ : ∃ c rest, (header.fill dgram.header).bytes = T ++ c :: rest := by
      obtain ⟨trailing, htrailing⟩ : T <+: (header.fill dgram.header).bytes := by
        rw [hfilled, ← hT]
        exact (List.rdropWhile_prefix _ _).trans (List.prefix_append _ _)
      have hnil : trailing ≠ [] := by
        rintro rfl
        have hsize := (header.fill dgram.header).size
        rw [← htrailing, List.append_nil] at hsize
        omega
      obtain ⟨c, rest, rfl⟩ := List.exists_cons_of_ne_nil hnil
      exact ⟨c, rest, htrailing.symm⟩
    obtain ⟨header', hwrite, hbytes'⟩ := HeaderBuf.write_eq hbytes 0
    obtain ⟨post, hpost⟩ := exists_cString T rest
    rw [hpost] at hbytes'
    have hnonul : ∀ c ∈ cString T, c ≠ 0 := by
      intro c hc
      simpa using List.mem_takeWhile_imp hc
    have hstring : header'.string 0 = .ok (cString T) :=
      @HeaderBuf.string_eq _ [] _ _ hbytes' hnonul
    rw [if_pos hfits, wpRecvCaptureEvent_eq hfits, headerFields, hT]
    simp only [hwrite, parseEventIn_eq buf hbytes' hnonul]
    cases fieldsEvent (tokens isFieldBlank (cString T)) (dgram.fds.take wpCaptureMaxFds) with
    | none => simp only [hstring]; rfl
    | some event => rfl
  · have hfull : ¬ T.length < 256 := hT ▸ mt (terminatorFits_iff dgram).mpr hfits
    have hle : T.length ≤ 256 := by
      rw [← hT]
      exact (List.rdropWhile_prefix _ _).length_le.trans (List.length_take_le 256 _)
    have hlength : T.length = 256 := by omega
    rw [if_neg hfits, hlength, HeaderBuf.write, if_neg (by omega)]

end Wallpiper.Capture
