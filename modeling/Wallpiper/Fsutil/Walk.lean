import Wallpiper.Fsutil.Trees

/-!
# The walk, call by call

Each part of the walk keeps the destination in order, also where it may be cut:
whenever a call is due that does not move the bytes of a file, every file of the
destination is complete.
-/

namespace Wallpiper.Fsutil

open Foundations Foundations.CText

variable {umask : UInt32} {faulty : Bool} {fs₀ : FileSystem} {src dst : Path}

/-- Where the run may be cut, the files are complete. -/
def SafeToCut (faulty : Bool) (fs₀ : FileSystem) (src dst : Path) (fs : FileSystem)
    (c : SysCall) : Prop :=
  faulty = true → inCopy fs c = false → Synced faulty fs₀ src dst fs

/-- The program returns whatever the answers are, and it may be cut on the way. -/
abbrev Ends {α : Type} (umask : UInt32) (faulty : Bool) (fs₀ : FileSystem) (src dst : Path)
    (Q : α → FileSystem → Prop) (p : SysProgram α) (fs : FileSystem) : Prop :=
  Program.Returns (SysStep umask faulty) (SafeToCut faulty fs₀ src dst) Q p fs

theorem Synced.safe {fs : FileSystem} (h : Synced faulty fs₀ src dst fs) (c : SysCall) :
    SafeToCut faulty fs₀ src dst fs c := fun _ _ ↦ h

/-! ## One file -/

/-- All but one node are as before. -/
def OnlyAt (p : Path) (new : Node) (fs fs' : FileSystem) : Prop :=
  ∀ q, fs'.node q = if q = p then some new else fs.node q

theorem OnlyAt.node {p : Path} {new : Node} {fs fs' : FileSystem} (h : OnlyAt p new fs fs') :
    fs'.node p = some new := by
  rw [h p, if_pos rfl]

theorem OnlyAt.replace {p : Path} {new new' : Node} {fs fs' fs'' : FileSystem}
    (h : OnlyAt p new fs fs') (h' : OnlyAt p new' fs' fs'') : OnlyAt p new' fs fs'' := by
  intro q
  rw [h' q]
  split
  · rfl
  · rename_i hne
    rw [h q, if_neg hne]

theorem ends_writeAll {target : Path} {fs : FileSystem} {mode : UInt32} (n : ℕ)
    {data before : Bytes} (hn : data.length ≤ n) {fs' : FileSystem}
    (hfs' : OnlyAt target (.file before mode) fs fs') :
    Ends umask faulty fs₀ src dst
      (fun ok fs'' ↦ ok = true ∧ OnlyAt target (.file (before ++ data) mode) fs fs'')
      (writeAll target n data) fs' := by
  induction n generalizing data before fs' with
  | zero =>
      obtain rfl := List.length_eq_zero_iff.mp (Nat.le_zero.mp hn)
      exact ⟨rfl, by rwa [List.append_nil]⟩
  | succ n ih =>
      cases data with
      | nil => exact ⟨rfl, by rwa [List.append_nil]⟩
      | cons c cs =>
          rw [writeAll]
          apply Program.Returns.bind
          · apply returns_sys
            · exact fun _ hout ↦ absurd hout (by simp [inCopy])
            · exact fun reply fs'' hreply ↦
                sysStep_write hfs'.node (List.cons_ne_nil c cs) hreply
          · rintro reply fs'' ⟨k, rfl, hk, hput⟩
            have hsplit : before ++ (c :: cs) =
                (before ++ (c :: cs).take (k + 1)) ++ cs.drop k := by
              rw [List.append_assoc, ← List.drop_succ_cons (a := c), List.take_append_drop]
            rw [hsplit]
            apply ih
            · rw [List.length_cons] at hn hk
              rw [List.length_drop]
              omega
            · exact hfs'.replace hput

/-- The loop copies the rest of the file; it can fail only behind its end. -/
theorem ends_copyLoop {source target : Path} {fs : FileSystem} {content : Bytes}
    {mode sourceMode : UInt32} (hsource : fs.node source = some (.file content sourceMode))
    (hne : source ≠ target)
    (hdone : faulty = true → ∀ fs', OnlyAt target (.file content mode) fs fs' →
      Synced faulty fs₀ src dst fs') (n : ℕ) {off : ℕ} (hoff : off ≤ content.length)
    (hn : content.length - off < n) {fs' : FileSystem}
    (hfs' : OnlyAt target (.file (content.take off) mode) fs fs') :
    Ends umask faulty fs₀ src dst
      (fun ok fs'' ↦ OnlyAt target (.file content mode) fs fs'' ∧ (faulty = false → ok = true))
      (copyLoop source target n off) fs' := by
  induction n generalizing off fs' with
  | zero => omega
  | succ n ih =>
      have hsource' : fs'.node source = some (.file content sourceMode) := by
        rw [hfs' source, if_neg hne, hsource]
      have hcomplete : content.length ≤ off → OnlyAt target (.file content mode) fs fs' := by
        intro hle
        rwa [List.take_of_length_le hle] at hfs'
      rw [copyLoop]
      apply Program.Returns.bind
      · apply returns_sys
        · intro hfaulty hout
          simp only [inCopy, hsource', decide_eq_false_iff_not, Nat.not_lt] at hout
          exact hdone hfaulty fs' (hcomplete hout)
        · exact fun reply fs'' hreply ↦ sysStep_read hsource' hreply
      · rintro reply fs'' ⟨rfl, ⟨bytes, rfl, hprefix, hend⟩ | ⟨rfl, hfaulty, hle⟩⟩
        · cases bytes with
          | nil => exact ⟨hcomplete (hend rfl), fun _ ↦ rfl⟩
          | cons c cs =>
              obtain ⟨rest, hrest⟩ := hprefix
              have hlength : content.length - off = (c :: cs).length + rest.length := by
                rw [← List.length_drop, ← hrest, List.length_append]
              have htake : content.take off ++ c :: cs = content.take (off + (cs.length + 1)) := by
                rw [List.take_add, ← hrest]
                simp
              rw [List.length_cons] at hlength
              have hall : (c :: cs).length ≤ cs.length + 1 := Nat.le_refl _
              refine Program.Returns.bind (ends_writeAll (cs.length + 1) hall hfs') ?_
              rintro ok fs₁ ⟨rfl, hfs₁⟩
              rw [htake] at hfs₁
              exact ih (by omega) (by omega) hfs₁
        · refine ⟨hcomplete hle, fun hno ↦ absurd hno (ne_false_of_eq_true hfaulty)⟩

/-- What one part of the walk does. -/
def Walked (faulty : Bool) (fs₀ : FileSystem) (src dst : Path) (fs : FileSystem)
    (Done : FileSystem → Prop) (ok : Bool) (fs' : FileSystem) : Prop :=
  Synced faulty fs₀ src dst fs' ∧ Grows fs fs' ∧ (faulty = false → ok = true ∧ Done fs')

theorem ends_copyFileWithMode {bound : ℕ} {rel : Path} {n : Name} {content : Bytes}
    {mode : UInt32} {fs : FileSystem} (htrees : Trees fs₀ src dst)
    (h : Synced faulty fs₀ src dst fs) (hconfig : configJson ∉ n :: rel)
    (hfile : fs₀.node (n :: rel ++ src) = some (.file content mode))
    (hbound : content.length < bound) (hnone : fs.node (n :: rel ++ dst) = none)
    (hparent : faulty = false → fs.node (rel ++ dst) = some .dir) :
    Ends umask faulty fs₀ src dst
      (Walked faulty fs₀ src dst fs fun fs' ↦ (fs'.node (n :: rel ++ dst)).isSome)
      (copyFileWithMode bound (n :: rel ++ src) (n :: rel ++ dst) (mode &&& 0o777)) fs := by
  have hsource : fs.node (n :: rel ++ src) = some (.file content mode) :=
    (h.source_eq htrees (n :: rel)).trans hfile
  have hne : n :: rel ++ src ≠ n :: rel ++ dst := by
    intro heq
    rw [heq, hnone] at hsource
    exact absurd hsource (by simp)
  have hcopied : ∀ mode', (faulty = false → mode' = mode &&& 0o777) →
      ∀ fs', OnlyAt (n :: rel ++ dst) (.file content mode') fs fs' →
        Synced faulty fs₀ src dst fs' := by
    intro mode' hmode fs' hfs'
    refine h.put hnone hfs' (.inr ⟨n :: rel, rfl, hconfig, ?_⟩)
    rw [hfile]
    exact ⟨rfl, hmode⟩
  rw [copyFileWithMode]
  apply Program.Returns.bind
  · exact returns_sys (h.safe _) fun opened fs' hopen ↦ sysStep_openRead hopen
  · rintro opened fs' ⟨rfl, hopened⟩
    have hisFile : fs'.isFile (n :: rel ++ src) = true := by
      rw [FileSystem.isFile, hsource]
    rw [hisFile] at hopened
    cases opened with
    | false =>
        refine ⟨h, Grows.refl fs', fun hno ↦ ?_⟩
        rcases hopened with hopened | ⟨hfaulty, _⟩
        · exact absurd hopened (by simp)
        · exact absurd hno (ne_false_of_eq_true hfaulty)
    | true =>
        apply Program.Returns.bind
        · exact returns_sys (h.safe _) fun opened fs'' hopen ↦ sysStep_openWrite hnone hopen
        · rintro opened fs₁ (⟨rfl, hfs₁⟩ | ⟨rfl, rfl, hfailed⟩)
          · have hgrow : ∀ new fs'', OnlyAt (n :: rel ++ dst) new fs' fs'' →
                Grows fs' fs'' ∧ (fs''.node (n :: rel ++ dst)).isSome := by
              intro new fs'' hfs''
              exact ⟨grows_put hnone hfs'', by rw [hfs''.node]; rfl⟩
            apply Program.Returns.bind (ends_copyLoop hsource hne (fun hfaulty ↦ hcopied _
              fun hno ↦ absurd hno (ne_false_of_eq_true hfaulty)) bound (Nat.zero_le _)
              (by omega) hfs₁)
            rintro ok fs₂ ⟨hfs₂, hok⟩
            cases ok with
            | true =>
                apply Program.Returns.bind
                · refine returns_sys ?_ fun reply fs₃ hreply ↦ sysStep_chmod hfs₂.node hreply
                  exact fun hfaulty _ ↦ hcopied _ (fun hno ↦
                    absurd hno (ne_false_of_eq_true hfaulty)) fs₂ hfs₂
                · intro reply fs₃ hchmod
                  have hfs₃ := hfs₂.replace hchmod
                  obtain ⟨hgrows, hsome⟩ := hgrow _ fs₃ hfs₃
                  exact ⟨hcopied _ (fun _ ↦ rfl) fs₃ hfs₃, hgrows, fun _ ↦ ⟨rfl, hsome⟩⟩
            | false =>
                have hfaulty : faulty = true := by
                  by_contra hno
                  exact absurd (hok (Bool.eq_false_iff.mpr hno)) (by simp)
                refine ⟨hcopied _ (fun hno ↦ absurd hno (ne_false_of_eq_true hfaulty)) fs₂ hfs₂,
                  (hgrow _ fs₂ hfs₂).1, fun hno ↦ absurd hno (ne_false_of_eq_true hfaulty)⟩
          · refine ⟨h, Grows.refl fs₁, fun hno ↦ ?_⟩
            have hname : ValidName n := FileSystem.valid_of_node (p := rel ++ src) (by
              rw [← List.cons_append, hfile]
              rfl)
            obtain ⟨fs'', hput⟩ := FileSystem.put_isSome (n := n) (p := rel ++ dst)
              (.file [] ((mode &&& 0o777) &&& ~~~umask)) hname (hparent hno) (by
                rw [← List.cons_append, hnone]
                simp)
            exact absurd ((hfailed hno).symm.trans hput) (by simp)

/-! ## Directories -/

theorem ends_mkdirs (htrees : Trees fs₀ src dst) {path : Path}
    (hplaces : ∀ p, p <:+ path → DirPlace fs₀ src dst p)
    (hstrict : faulty = false → Mergeable fs₀ src dst ∧ ∀ n ∈ path, ValidName n)
    {fs : FileSystem} (h : Synced faulty fs₀ src dst fs) :
    Ends umask faulty fs₀ src dst
      (Walked faulty fs₀ src dst fs fun fs' ↦ fs'.node path = some .dir)
      (mkdirs path) fs := by
  induction path generalizing fs with
  | nil => exact ⟨h, Grows.refl fs, fun _ ↦ ⟨rfl, fs.node_root⟩⟩
  | cons n path ih =>
      have habove := ih (fun p hp ↦ hplaces p (hp.trans (List.suffix_cons n path)))
        (fun hno ↦ ⟨(hstrict hno).1, fun m hm ↦ (hstrict hno).2 m (List.mem_cons_of_mem n hm)⟩) h
      have hplace := hplaces _ (List.suffix_refl (n :: path))
      rw [mkdirs]
      apply Program.Returns.bind habove
      rintro ok fs₁ ⟨hfs₁, hgrows₁, hok⟩
      cases ok with
      | false =>
          exact ⟨hfs₁, hgrows₁, fun hno ↦ absurd (hok hno).1 (by simp)⟩
      | true =>
          apply Program.Returns.bind
          · exact returns_sys (hfs₁.safe _) fun reply fs₂ hreply ↦ sysStep_mkdir hreply
          · rintro reply fs₂ (⟨rfl, hnone, hput⟩ | ⟨rfl, hsome, rfl⟩ | ⟨rfl, rfl, hfailed⟩)
            · refine ⟨hfs₁.put hnone hput ?_, hgrows₁.trans (grows_put hnone hput),
                fun _ ↦ ⟨rfl, (hput _).trans (if_pos rfl)⟩⟩
              rcases hplace with hsuffix | ⟨rel, hrel, hconfig, hdir⟩
              · exact .inl ⟨hsuffix, rfl⟩
              · refine .inr ⟨rel, hrel, hconfig, ?_⟩
                rw [hdir]
                trivial
            · refine ⟨hfs₁, hgrows₁, fun hno ↦ ⟨rfl, ?_⟩⟩
              obtain ⟨node, hnode⟩ := Option.isSome_iff_exists.mp hsome
              rw [hnode, hfs₁.dir_of_place htrees (hstrict hno).1 hplace hnode]
            · refine ⟨hfs₁, hgrows₁, fun hno ↦ ?_⟩
              obtain ⟨hnone, hput⟩ := hfailed hno
              obtain ⟨fs'', hput'⟩ := FileSystem.put_isSome Node.dir
                ((hstrict hno).2 n List.mem_cons_self) (hok hno).2 (by rw [hnone]; simp)
              exact absurd (hput.symm.trans hput') (by simp)

theorem pathLength_cons (n : Name) (p : Path) :
    pathLength (n :: p) = n.length + 1 + pathLength p := by
  rw [pathLength, List.map_cons, List.sum_cons]
  rfl

theorem valid_of_mem {fs : FileSystem} {rel p : Path} (h : (fs.node (rel ++ p)).isSome) :
    ∀ n ∈ rel, ValidName n := by
  induction rel with
  | nil => simp
  | cons m rel ih =>
      intro n hn
      rcases List.mem_cons.mp hn with rfl | hn
      · exact FileSystem.valid_of_node (p := rel ++ p) h
      · have hdir : fs.node (rel ++ p) = some .dir := FileSystem.node_parent h
        exact ih (by rw [hdir]; rfl) n hn

/-- Without failures the destination of a directory is there afterwards. -/
theorem ends_wpMkdirP (htrees : Trees fs₀ src dst) {rel : Path} (hconfig : configJson ∉ rel)
    (hdir : fs₀.node (rel ++ src) = some .dir)
    (hstrict : faulty = false → Mergeable fs₀ src dst)
    {fs : FileSystem} (h : Synced faulty fs₀ src dst fs) :
    Ends umask faulty fs₀ src dst
      (Walked faulty fs₀ src dst fs fun fs' ↦ fs'.node (rel ++ dst) = some .dir)
      (wpMkdirP (rel ++ dst)) fs := by
  rw [wpMkdirP]
  split
  · rename_i hlength
    refine ⟨h, Grows.refl fs, fun hno ↦ ?_⟩
    obtain ⟨_, hshort⟩ := (hstrict hno).short rel (by rw [hdir]; rfl)
    obtain ⟨n, rest, hcons⟩ : ∃ n rest, rel ++ dst = n :: rest := by
      apply List.exists_cons_of_ne_nil
      intro hnil
      exact (hstrict hno).nonempty.2 (List.append_eq_nil_iff.mp hnil).2
    have hpos : 0 < pathLength (rel ++ dst) := by
      rw [hcons, pathLength_cons]
      omega
    omega
  · apply ends_mkdirs htrees (fun p hp ↦ dirPlace_of_suffix hconfig hdir hp) ?_ h
    refine fun hno ↦ ⟨hstrict hno, fun n hn ↦ ?_⟩
    rcases List.mem_append.mp hn with hn | hn
    · exact valid_of_mem (by rw [hdir]; rfl) n hn
    · exact (hstrict hno).names n hn

/-! ## The tree -/

/-- Everything below a place of the source that is to be copied is at the same
place of the destination. -/
def PresentBelow (fs₀ : FileSystem) (src dst rel : Path) (fs : FileSystem) : Prop :=
  ∀ sub, configJson ∉ sub → ∀ node, fs₀.node (sub ++ (rel ++ src)) = some node →
    node ≠ .special → (fs.node (sub ++ (rel ++ dst))).isSome

theorem PresentBelow.grows {rel : Path} {fs fs' : FileSystem}
    (h : PresentBelow fs₀ src dst rel fs) (hgrows : Grows fs fs') :
    PresentBelow fs₀ src dst rel fs' :=
  fun sub hconfig node hnode hspecial ↦ hgrows.isSome (h sub hconfig node hnode hspecial)

/-- Below a node that is no directory there is nothing else. -/
theorem presentBelow_of_leaf {rel : Path} {node : Node} {fs : FileSystem}
    (hnode : fs₀.node (rel ++ src) = some node) (hleaf : node ≠ .dir)
    (hsome : node ≠ .special → (fs.node (rel ++ dst)).isSome) :
    PresentBelow fs₀ src dst rel fs := by
  intro sub _ node' hnode' hspecial
  cases sub with
  | nil =>
      obtain rfl : node = node' := Option.some.inj (hnode.symm.trans hnode')
      exact hsome hspecial
  | cons n sub =>
      have hdir := node_dir_of_append (List.cons_ne_nil n sub) (by rw [hnode']; rfl)
      exact absurd (Option.some.inj (hnode.symm.trans hdir)) hleaf

/-- Conditions on the tree and the bounds. -/
structure WalkBounds (faulty : Bool) (bound : ℕ) (fs₀ : FileSystem) (src dst : Path) : Prop where
  trees : Trees fs₀ src dst
  mergeable : faulty = false → Mergeable fs₀ src dst
  files : ∀ p content mode, fs₀.node p = some (.file content mode) → content.length < bound

theorem ends_syncEntry {bound : ℕ} (hbounds : WalkBounds faulty bound fs₀ src dst)
    {recurse : Path → Path → SysProgram Bool} {rel : Path} (hconfig : configJson ∉ rel) {n : Name}
    (hrecurse : n ≠ configJson → fs₀.node (n :: rel ++ src) = some .dir →
      pathLength (n :: rel ++ src) < 1024 → ∀ fs, Synced faulty fs₀ src dst fs →
        Ends umask faulty fs₀ src dst
          (Walked faulty fs₀ src dst fs (PresentBelow fs₀ src dst (n :: rel)))
          (recurse (n :: rel ++ src) (n :: rel ++ dst)) fs)
    (hexists : n ≠ dot → n ≠ dotDot → (fs₀.node (n :: rel ++ src)).isSome)
    {fs : FileSystem} (h : Synced faulty fs₀ src dst fs)
    (hparent : faulty = false → fs.node (rel ++ dst) = some .dir) :
    Ends umask faulty fs₀ src dst
      (Walked faulty fs₀ src dst fs fun fs' ↦ n ≠ dot → n ≠ dotDot → n ≠ configJson →
        PresentBelow fs₀ src dst (n :: rel) fs')
      (syncEntry recurse bound (rel ++ src) (rel ++ dst) n) fs := by
  rw [syncEntry]
  split
  · rename_i hdots
    refine ⟨h, Grows.refl fs, fun _ ↦ ⟨rfl, fun hdot hdotDot ↦ ?_⟩⟩
    exact absurd hdots (not_or.mpr ⟨hdot, hdotDot⟩)
  · rename_i hdots
    obtain ⟨hdot, hdotDot⟩ := not_or.mp hdots
    split
    · rename_i hjson
      exact ⟨h, Grows.refl fs, fun _ ↦ ⟨rfl, fun _ _ hne ↦ absurd hjson hne⟩⟩
    · rename_i hjson
      have hsome := hexists hdot hdotDot
      have hsource := h.source_eq hbounds.trees (n :: rel)
      split
      · rename_i hlong
        refine ⟨h, Grows.refl fs, fun hno ↦ ?_⟩
        have hshort := (hbounds.mergeable hno).short (n :: rel) hsome
        rw [List.cons_append, List.cons_append] at hshort
        omega
      · rename_i hfits
        obtain ⟨node, hnode⟩ := Option.isSome_iff_exists.mp hsome
        rw [hnode] at hsource
        apply Program.Returns.bind
        · exact returns_sys (h.safe _) fun kind fs' hkind ↦ sysStep_lstat hkind
        · rintro kind fs' ⟨rfl, hkind | ⟨hfaulty, rfl⟩⟩
          · have hnodeKind : kind = some node.kind := by
              rw [hkind, ← List.cons_append, hsource]
              rfl
            subst hnodeKind
            cases node with
            | dir =>
                refine (hrecurse hjson hnode (by
                  rw [List.cons_append]
                  omega) fs' h).mono fun ok fs'' hwalked ↦ ?_
                exact ⟨hwalked.1, hwalked.2.1, fun hno ↦
                  ⟨(hwalked.2.2 hno).1, fun _ _ _ ↦ (hwalked.2.2 hno).2⟩⟩
            | special =>
                refine ⟨h, Grows.refl fs', fun _ ↦ ⟨rfl, fun _ _ _ ↦ ?_⟩⟩
                exact presentBelow_of_leaf hnode (by simp) fun hne ↦ absurd rfl hne
            | file content mode =>
                apply Program.Returns.bind
                · exact returns_sys (h.safe _) fun found fs'' hfound ↦ sysStep_stat hfound
                · rintro found fs'' ⟨rfl, hfound⟩
                  cases found with
                  | true =>
                      refine ⟨h, Grows.refl fs'', fun _ ↦ ⟨rfl, fun _ _ _ ↦ ?_⟩⟩
                      exact presentBelow_of_leaf hnode (by simp) fun _ ↦ hfound.symm
                  | false =>
                      have hnone : fs''.node (n :: rel ++ dst) = none :=
                        Option.isSome_eq_false_iff.mp hfound.symm |> Option.isNone_iff_eq_none.mp
                      have hcopy : Ends umask faulty fs₀ src dst _ _ fs'' :=
                        ends_copyFileWithMode hbounds.trees h
                          (by simpa using ⟨Ne.symm hjson, hconfig⟩) hnode
                          (hbounds.files _ _ _ hnode) hnone hparent
                      refine hcopy.mono fun ok fs₁ ⟨hsynced, hgrows, hok⟩ ↦ ?_
                      refine ⟨hsynced, hgrows, fun hno ↦ ⟨(hok hno).1, fun _ _ _ ↦ ?_⟩⟩
                      exact presentBelow_of_leaf hnode (by simp) fun _ ↦ (hok hno).2
          · exact ⟨h, Grows.refl fs', fun hno ↦ absurd hno (ne_false_of_eq_true hfaulty)⟩

theorem ends_syncEntries {bound : ℕ} (hbounds : WalkBounds faulty bound fs₀ src dst)
    {recurse : Path → Path → SysProgram Bool} {rel : Path} (hconfig : configJson ∉ rel)
    (hrecurse : ∀ n, n ≠ configJson → fs₀.node (n :: rel ++ src) = some .dir →
      pathLength (n :: rel ++ src) < 1024 → ∀ fs, Synced faulty fs₀ src dst fs →
        Ends umask faulty fs₀ src dst
          (Walked faulty fs₀ src dst fs (PresentBelow fs₀ src dst (n :: rel)))
          (recurse (n :: rel ++ src) (n :: rel ++ dst)) fs)
    {names : List Name}
    (hexists : ∀ n ∈ names, n ≠ dot → n ≠ dotDot → (fs₀.node (n :: rel ++ src)).isSome)
    {ok : Bool} (hok : faulty = false → ok = true) {fs : FileSystem}
    (h : Synced faulty fs₀ src dst fs)
    (hparent : faulty = false → fs.node (rel ++ dst) = some .dir) :
    Ends umask faulty fs₀ src dst
      (Walked faulty fs₀ src dst fs fun fs' ↦ ∀ n ∈ names, n ≠ dot → n ≠ dotDot →
        n ≠ configJson → PresentBelow fs₀ src dst (n :: rel) fs')
      (syncEntries recurse bound (rel ++ src) (rel ++ dst) names ok) fs := by
  induction names generalizing ok fs with
  | nil => exact ⟨h, Grows.refl fs, fun hno ↦ ⟨hok hno, by simp⟩⟩
  | cons n names ih =>
      have hentry := ends_syncEntry hbounds hconfig (hrecurse n) (hexists n List.mem_cons_self) h
        hparent
      rw [syncEntries]
      apply Program.Returns.bind hentry
      rintro synced fs₁ ⟨hfs₁, hgrows₁, hsynced⟩
      have hrest := @ih (fun m hm ↦ hexists m (List.mem_cons_of_mem n hm)) (ok && synced)
        (fun hno ↦ by rw [hok hno, (hsynced hno).1]; rfl) fs₁ hfs₁
        (fun hno ↦ hgrows₁ _ _ (hparent hno))
      refine hrest.mono fun ok' fs₂ ⟨hfs₂, hgrows₂, hok'⟩ ↦ ?_
      refine ⟨hfs₂, hgrows₁.trans hgrows₂, fun hno ↦ ⟨(hok' hno).1, ?_⟩⟩
      intro m hm hdot hdotDot hjson
      rcases List.mem_cons.mp hm with rfl | hm
      · exact ((hsynced hno).2 hdot hdotDot hjson).grows hgrows₂
      · exact (hok' hno).2 m hm hdot hdotDot hjson

/-- What is below a directory is the directory or below one of its entries. -/
theorem presentBelow_of_entries {rel : Path} {names : List Name} {fs : FileSystem}
    (hnames : ∀ n, (fs₀.node (n :: rel ++ src)).isSome → n ∈ names)
    (hdir : fs.node (rel ++ dst) = some .dir)
    (hentries : ∀ n ∈ names, n ≠ dot → n ≠ dotDot → n ≠ configJson →
      PresentBelow fs₀ src dst (n :: rel) fs) :
    PresentBelow fs₀ src dst rel fs := by
  intro sub hconfig node hnode hspecial
  rcases List.eq_nil_or_concat sub with rfl | ⟨sub, n, rfl⟩
  · rw [List.nil_append, hdir]
    rfl
  · rw [List.concat_eq_append] at hconfig hnode ⊢
    rw [List.append_assoc, List.singleton_append] at hnode ⊢
    have hsome : (fs₀.node (n :: rel ++ src)).isSome :=
      FileSystem.node_of_append sub (by rw [List.cons_append, hnode]; rfl)
    obtain ⟨_, hdot, hdotDot, _⟩ : ValidName n := FileSystem.valid_of_node hsome
    simp only [List.mem_append, List.mem_singleton, not_or] at hconfig
    exact hentries n (hnames n hsome) hdot hdotDot (Ne.symm hconfig.2) sub hconfig.1 node hnode
      hspecial

theorem ends_syncDirTree_succ {bound : ℕ} (hbounds : WalkBounds faulty bound fs₀ src dst)
    {depth : ℕ} {rel : Path} (hconfig : configJson ∉ rel)
    (hdir : fs₀.node (rel ++ src) = some .dir)
    (hrecurse : ∀ n, n ≠ configJson → fs₀.node (n :: rel ++ src) = some .dir →
      pathLength (n :: rel ++ src) < 1024 → ∀ fs, Synced faulty fs₀ src dst fs →
        Ends umask faulty fs₀ src dst
          (Walked faulty fs₀ src dst fs (PresentBelow fs₀ src dst (n :: rel)))
          (syncDirTree bound depth (n :: rel ++ src) (n :: rel ++ dst)) fs)
    {fs : FileSystem} (h : Synced faulty fs₀ src dst fs) :
    Ends umask faulty fs₀ src dst
      (Walked faulty fs₀ src dst fs (PresentBelow fs₀ src dst rel))
      (syncDirTree bound (depth + 1) (rel ++ src) (rel ++ dst)) fs := by
  have hsource : fs.node (rel ++ src) = some .dir := (h.source_eq hbounds.trees rel).trans hdir
  rw [syncDirTree]
  apply Program.Returns.bind
  · exact returns_sys (h.safe _) fun opened fs' hopen ↦ sysStep_opendir hopen
  · rintro opened fs' ⟨rfl, _, hopened⟩
    cases opened with
    | false =>
        refine ⟨h, Grows.refl fs', fun hno ↦ ?_⟩
        have hne : rel ++ src ≠ [] := by
          intro hnil
          exact (hbounds.mergeable hno).nonempty.1 (List.append_eq_nil_iff.mp hnil).2
        exact absurd (hopened hno hne hsource) (by simp)
    | true =>
        apply Program.Returns.bind
          (ends_wpMkdirP hbounds.trees hconfig hdir hbounds.mergeable h)
        rintro made fs₁ ⟨hfs₁, hgrows₁, hmade⟩
        cases made with
        | false => exact ⟨hfs₁, hgrows₁, fun hno ↦ absurd (hmade hno).1 (by simp)⟩
        | true =>
            apply Program.Returns.bind
            · exact returns_sys (hfs₁.safe _) fun names fs₂ hnames ↦ sysStep_readdir hnames
            · rintro names fs₂ ⟨rfl, hnames⟩
              have hchildren : ∀ n,
                  n ∈ fs₂.children (rel ++ src) ↔ (fs₀.node (n :: rel ++ src)).isSome := by
                intro n
                rw [FileSystem.mem_children, ← List.cons_append,
                  hfs₁.source_eq hbounds.trees (n :: rel)]
              have hmem : ∀ n, n ∈ names ↔
                  n = dot ∨ n = dotDot ∨ (fs₀.node (n :: rel ++ src)).isSome := by
                intro n
                rw [hnames.mem_iff, List.mem_cons, List.mem_cons, hchildren]
              have hexists : ∀ n ∈ names, n ≠ dot → n ≠ dotDot →
                  (fs₀.node (n :: rel ++ src)).isSome := by
                intro n hn hdot hdotDot
                exact (((hmem n).mp hn).resolve_left hdot).resolve_left hdotDot
              have hentries := ends_syncEntries hbounds hconfig hrecurse hexists (fun _ ↦ rfl) hfs₁
                (fun hno ↦ (hmade hno).2)
              refine hentries.mono fun ok fs₃ ⟨hfs₃, hgrows₃, hok⟩ ↦ ?_
              refine ⟨hfs₃, hgrows₁.trans hgrows₃, fun hno ↦ ⟨(hok hno).1, ?_⟩⟩
              exact presentBelow_of_entries (fun n hn ↦ (hmem n).mpr (.inr (.inr hn)))
                (hgrows₃ _ _ (hmade hno).2) (hok hno).2

/-- The nesting is bounded because a path that is too long is not followed. -/
theorem ends_syncDirTree {bound : ℕ} (hbounds : WalkBounds faulty bound fs₀ src dst) (depth : ℕ)
    {rel : Path} (hdepth : 1024 ≤ depth + pathLength (rel ++ src)) (hconfig : configJson ∉ rel)
    (hdir : fs₀.node (rel ++ src) = some .dir) {fs : FileSystem}
    (h : Synced faulty fs₀ src dst fs) :
    Ends umask faulty fs₀ src dst
      (Walked faulty fs₀ src dst fs (PresentBelow fs₀ src dst rel))
      (syncDirTree bound (depth + 1) (rel ++ src) (rel ++ dst)) fs := by
  induction depth generalizing rel fs with
  | zero =>
      refine ends_syncDirTree_succ hbounds hconfig hdir ?_ h
      intro n _ _ hshort
      rw [List.cons_append, pathLength_cons] at hshort
      omega
  | succ depth ih =>
      refine ends_syncDirTree_succ hbounds hconfig hdir ?_ h
      intro n hjson hentry _ fs' hfs'
      refine ih ?_ (by simpa using ⟨Ne.symm hjson, hconfig⟩) hentry hfs'
      rw [List.cons_append, pathLength_cons]
      omega

end Wallpiper.Fsutil
