import Wallpiper.Capture.WireFormat
import Wallpiper.Ctl.Listener

/-!
# Commands to the daemon

The control tool joins the words of a command with blanks into one line.  The
daemon splits the line into words again, runs the command and answers with one
line, from which the tool reads whether the command succeeded.  Either side
may see only the front of what the other one wrote.
-/

namespace Wallpiper.Ctl.Daemon

open Capture Foundations.CText

/-! ## The tool's side -/

/-- The words from index `i` on, appended to the request buffer. -/
def appendArgs (i : ℕ) (request : Bytes) : List Bytes → Option Bytes
  | [] => some request
  | arg :: args =>
      let piece := (if i = 0 then [] else [32]) ++ arg
      if piece.length = 0 ∨ request.length + piece.length ≥ 1024 then none
      else appendArgs (i + 1) (request ++ piece) args

def commandRequest (args : List Bytes) : Option Bytes :=
  (appendArgs 0 [] args).map fun request ↦ request ++ [10]

def trim (s : Bytes) : Bytes := s.rdropWhile fun c ↦ c == 10 || c == 13

/-- Success, or failure with the message for a buffer of the given size. -/
def wpDaemonCtlParseResponse (line : Bytes) (errLen : ℕ) : Option (Except Bytes Unit) :=
  let text := cString line
  if text.length = 0 ∨ text.length ≥ 512 then none
  else
    let buf := trim text
    if buf = bytesOf "OK" then some (.ok ())
    else if bytesOf "ERR" <+: buf then
      some (.error (snprintf errLen ((buf.drop 3).dropWhile fun c ↦ c == 32 || c == 9)))
    else none

/-! ## The daemon's side -/

def isDelim (c : UInt8) : Bool := c == 32 || c == 9 || c == 13 || c == 10

/-- The first 64 words of a line, as `strtok_r` cuts them. -/
def commandArgs (line : Bytes) : List Bytes :=
  (tokens isDelim (snprintf 1024 (cString line))).take 64

/-- The overlay request that is passed on to the portal, or an error. -/
def wpCommandsDispatch (args : List Bytes) (errLen : ℕ) : Except Bytes CtlRequest :=
  match args with
  | [] => .error (snprintf errLen (bytesOf "empty command"))
  | cmd :: _ =>
      if cmd = bytesOf "debug-on" then .ok .debugOn
      else if cmd = bytesOf "debug-off" then .ok .debugOff
      else .error (snprintf errLen (bytesOf "unknown command: " ++ cmd))

def wpDaemonCtlEncodeOk : Bytes := snprintf 512 (bytesOf "OK\n")

def wpDaemonCtlEncodeErr (message : Bytes) : Bytes :=
  snprintf 512 (bytesOf "ERR " ++ message ++ [10])

/-- One connection: the bytes that arrive, what is passed on to the portal and
the reply. -/
def serveConnection (arrived : Bytes) : List CtlRequest × Bytes :=
  match wpCommandsDispatch (commandArgs (readLine 1024 arrived)) 400 with
  | .ok request => ([request], wpDaemonCtlEncodeOk)
  | .error err => ([], wpDaemonCtlEncodeErr err)

/-! ## One command -/

/-- How many bytes of the request and of the reply get through. -/
structure Transport where
  sent : ℕ
  replied : ℕ
  deriving DecidableEq, Repr

/-- What the tool makes of the bytes of a reply. -/
def readVerdict (reply : Bytes) : Except Bytes Unit :=
  let line := readLine 512 reply
  if line = [] then .error (bytesOf "no response from wallpiperd")
  else
    match wpDaemonCtlParseResponse line 256 with
    | some result => result
    | none =>
        .error (snprintf 512 (bytesOf "malformed response from wallpiperd: " ++ cString line))

/-- What the tool returns, with its error text, and what the portal was
asked. -/
def wpSendDaemonCommand (t : Transport) (args : List Bytes) :
    Except Bytes Unit × List CtlRequest :=
  match commandRequest args with
  | none => (.error (bytesOf "command too long"), [])
  | some request =>
      let served := serveConnection (request.take t.sent)
      if t.sent < request.length then (.error (bytesOf "failed to write command"), served.1)
      else (readVerdict (served.2.take t.replied), served.1)

/-- The command run in place: its verdict and what the portal was asked. -/
def runLocally (args : List Bytes) : Except Bytes Unit × List CtlRequest :=
  match wpCommandsDispatch args 256 with
  | .ok request => (.ok (), [request])
  | .error err => (.error err, [])

/-! ## The request line -/

theorem appendArgs_succ {i : ℕ} {request out : Bytes} {args : List Bytes}
    (h : appendArgs (i + 1) request args = some out) (hlength : request.length < 1024) :
    out = request ++ args.flatMap (32 :: ·) ∧ out.length < 1024 := by
  induction args generalizing i request with
  | nil =>
      obtain rfl := Option.some.inj h
      exact ⟨(List.append_nil _).symm, hlength⟩
  | cons arg args ih =>
      simp only [appendArgs, Nat.add_eq_zero_iff, one_ne_zero, and_false, if_false] at h
      split at h
      · exact absurd h (by simp)
      · rename_i hfits
        rw [not_or, not_le, ← List.length_append] at hfits
        obtain ⟨rfl, hout⟩ := ih h hfits.2
        exact ⟨by rw [List.flatMap_cons, List.singleton_append, List.append_assoc], hout⟩

theorem intercalate_eq_flatMap (arg : Bytes) (args : List Bytes) :
    [32].intercalate (arg :: args) = arg ++ args.flatMap (32 :: ·) := by
  induction args generalizing arg with
  | nil => simp [List.intercalate]
  | cons next args ih =>
      rw [List.intercalate_cons_cons, ih, List.flatMap_cons]
      simp

/-- The request is the words with blanks between them, and not longer than the
daemon reads. -/
theorem commandRequest_eq_some {args : List Bytes} {request : Bytes}
    (h : commandRequest args = some request) :
    request = [32].intercalate args ++ [10] ∧ ([32].intercalate args).length < 1024 := by
  obtain ⟨joined, hjoined, rfl⟩ := Option.map_eq_some_iff.mp h
  cases args with
  | nil =>
      obtain rfl := Option.some.inj hjoined
      exact ⟨rfl, by decide⟩
  | cons arg args =>
      simp only [appendArgs, if_true, List.nil_append] at hjoined
      split at hjoined
      · exact absurd hjoined (by simp)
      · rename_i hfits
        rw [not_or, not_le, List.length_nil, Nat.zero_add] at hfits
        obtain ⟨rfl, hlength⟩ := appendArgs_succ hjoined hfits.2
        rw [intercalate_eq_flatMap]
        exact ⟨rfl, hlength⟩

/-! ## The words that arrive -/

theorem mem_intercalate {args : List Bytes} {c : UInt8} (h : c ∈ [32].intercalate args) :
    c = 32 ∨ ∃ arg ∈ args, c ∈ arg := by
  cases args with
  | nil => exact absurd h List.not_mem_nil
  | cons arg args =>
      rw [intercalate_eq_flatMap] at h
      rcases List.mem_append.mp h with hc | hc
      · exact .inr ⟨arg, List.mem_cons_self, hc⟩
      · obtain ⟨arg', harg', hc⟩ := List.mem_flatMap.mp hc
        exact (List.mem_cons.mp hc).imp_right fun hc ↦ ⟨arg', List.mem_cons_of_mem _ harg', hc⟩

/-- A line that fits the buffer is split with or without its newline. -/
theorem commandArgs_readLine {line : Bytes} (hlength : line.length < 1024)
    (hplain : ∀ c ∈ line, c ≠ 0 ∧ c ≠ 10) :
    commandArgs (readLine 1024 (line ++ [10])) = (tokens isDelim line).take 64 := by
  have hnewline : tokens isDelim (line ++ [10]) = tokens isDelim line := by
    rw [tokens, List.splitOnP_append_cons line [] rfl, List.filter_append]
    exact List.append_nil _
  have hstring : cString line = line := cString_of_nonul fun c hc ↦ (hplain c hc).1
  have hcut : cutAt 10 (line ++ [10]) = some (line, []) :=
    cutAt_append_cons (fun c hc ↦ (hplain c hc).2) []
  by_cases hroom : line.length < 1023
  · have hread : readLine 1024 (line ++ [10]) = line ++ [10] := by
      have htake : (line ++ [10]).take (1024 - 1) = line ++ [10] := by
        apply List.take_of_length_le
        rw [List.length_append, List.length_singleton]
        omega
      simp only [readLine, htake, hcut]
    have hfull : cString (line ++ [10]) = line ++ [10] := by
      apply cString_of_nonul
      intro c hc
      rcases List.mem_append.mp hc with hc | hc
      · exact (hplain c hc).1
      · rw [List.mem_singleton.mp hc]
        decide
    have hcopy : snprintf 1024 (line ++ [10]) = line ++ [10] := by
      apply List.take_of_length_le
      rw [List.length_append, List.length_singleton]
      omega
    rw [commandArgs, hread, hfull, hcopy, hnewline]
  · have hread : readLine 1024 (line ++ [10]) = line := by
      have htake : (line ++ [10]).take (1024 - 1) = line := by
        rw [List.take_append_of_le_length (by omega)]
        exact List.take_of_length_le (by omega)
      have hnone : cutAt 10 line = none := by
        rw [Option.eq_none_iff_forall_not_mem]
        rintro ⟨front, back⟩ hfound
        obtain ⟨hline, -⟩ := cutAt_eq_some hfound
        exact (hplain 10 (by simp [hline])).2 rfl
      simp only [readLine, htake, hnone]
    have hcopy : snprintf 1024 line = line := List.take_of_length_le (by omega)
    rw [commandArgs, hread, hstring, hcopy]

/-- A word of the command line: what the daemon can take as one argument. -/
def IsWord (arg : Bytes) : Prop := arg ≠ [] ∧ ∀ c ∈ arg, isDelim c = false

theorem tokens_words {args : List Bytes} (hwords : ∀ arg ∈ args, IsWord arg) :
    tokens isDelim ([32].intercalate args) = args := by
  cases args with
  | nil => rfl
  | cons arg args =>
      exact tokens_intercalate rfl (List.cons_ne_nil _ _) (fun a ha ↦ (hwords a ha).1)
        fun a ha ↦ (hwords a ha).2

theorem isWord_of_mem_tokens {line arg : Bytes} (h : arg ∈ tokens isDelim line) :
    IsWord arg := by
  refine ⟨?_, not_delim_of_mem_tokens h⟩
  rintro rfl
  exact absurd (List.mem_filter.mp h).2 (by simp)

/-- The daemon sees the words that were given exactly when there are at most
64 of them and none is empty or holds a delimiter. -/
theorem command_words_arrive (args : List Bytes) (request : Bytes)
    (hargs : ∀ arg ∈ args, ∀ c ∈ arg, c ≠ 0) (h : commandRequest args = some request) :
    commandArgs (readLine 1024 request) = args ↔
      args.length ≤ 64 ∧ ∀ arg ∈ args, IsWord arg := by
  obtain ⟨rfl, hlength⟩ := commandRequest_eq_some h
  constructor
  · intro harrive
    rw [← harrive]
    refine ⟨List.length_take_le _ _, fun arg harg ↦ ?_⟩
    exact isWord_of_mem_tokens (List.mem_of_mem_take harg)
  · rintro ⟨hcount, hwords⟩
    rw [commandArgs_readLine hlength, tokens_words hwords, List.take_of_length_le hcount]
    intro c hc
    rcases mem_intercalate hc with rfl | ⟨arg, harg, hc⟩
    · decide
    · refine ⟨hargs arg harg c hc, ?_⟩
      rintro rfl
      exact absurd ((hwords arg harg).2 10 hc) (by decide)

theorem command_words_arrive_debugOff :
    commandArgs (readLine 1024 (bytesOf "debug-off now\n")) =
      [bytesOf "debug-off", bytesOf "now"] := by
  have hargs : ∀ arg ∈ [bytesOf "debug-off", bytesOf "now"], ∀ c ∈ arg, c ≠ 0 := by
    decide +kernel
  apply (command_words_arrive _ _ hargs rfl).mpr
  refine ⟨by decide, ?_⟩
  unfold IsWord
  decide +kernel

/-! ## The reply -/

/-- The message of a command that the daemon refuses: one line that the tool
reads back whole. -/
structure IsMessage (err : Bytes) : Prop where
  plain : ∀ c ∈ err, c ≠ 0 ∧ c ≠ 10
  start : err.dropWhile (fun c ↦ c == 32 || c == 9) = err
  tail : err.getLast? ≠ some 13

theorem isMessage_unknown {cmd : Bytes} (hcmd : IsWord cmd) (hplain : ∀ c ∈ cmd, c ≠ 0)
    {n : ℕ} (hn : 17 < n) : IsMessage ((bytesOf "unknown command: " ++ cmd).take n) := by
  have hfront : (bytesOf "unknown command: " ++ cmd).take n =
      bytesOf "unknown command: " ++ cmd.take (n - 17) := by
    rw [List.take_append, List.take_of_length_le (by simp [bytesOf]; omega)]
    rfl
  have hword : ∀ c ∈ cmd.take (n - 17), isDelim c = false := fun c hc ↦
    hcmd.2 c (List.mem_of_mem_take hc)
  have hne : cmd.take (n - 17) ≠ [] := by
    rw [Ne, List.take_eq_nil_iff, not_or]
    exact ⟨by omega, hcmd.1⟩
  have htext : ∀ c ∈ bytesOf "unknown command: ", c ≠ 0 ∧ c ≠ 10 := by decide +kernel
  rw [hfront]
  refine ⟨fun c hc ↦ ?_, rfl, fun hlast ↦ ?_⟩
  · rcases List.mem_append.mp hc with hc | hc
    · exact htext c hc
    · refine ⟨hplain c (List.mem_of_mem_take hc), ?_⟩
      rintro rfl
      exact absurd (hword 10 hc) (by decide)
  · rw [List.getLast?_append_of_ne_nil _ hne] at hlast
    exact absurd (hword 13 (List.mem_of_getLast? hlast)) (by decide)

theorem isMessage_empty : IsMessage (bytesOf "empty command") := by
  have htext : ∀ c ∈ bytesOf "empty command", c ≠ 0 ∧ c ≠ 10 := by decide +kernel
  exact ⟨htext, rfl, by simp [bytesOf]⟩

/-- The tool reads the message of a refused command back, cut to its own
buffer. -/
theorem readVerdict_error {err : Bytes} (herr : IsMessage err) (hlength : err.length < 400) :
    readVerdict (wpDaemonCtlEncodeErr err) = .error (snprintf 256 err) := by
  set body := bytesOf "ERR " ++ err with hbody
  have hbodyLength : body.length = err.length + 4 := by simp [hbody, bytesOf]
  have htext : ∀ c ∈ bytesOf "ERR ", c ≠ 0 ∧ c ≠ 10 := by decide +kernel
  have hplain : ∀ c ∈ body, c ≠ 0 ∧ c ≠ 10 := by
    intro c hc
    rcases List.mem_append.mp hc with hc | hc
    · exact htext c hc
    · exact herr.plain c hc
  have hsent : wpDaemonCtlEncodeErr err = body ++ [10] :=
    List.take_of_length_le (by simp [bytesOf]; omega)
  have hread : readLine 512 (body ++ [10]) = body ++ [10] := by
    have htake : (body ++ [10]).take (512 - 1) = body ++ [10] :=
      List.take_of_length_le (by simp; omega)
    have hcut : cutAt 10 (body ++ [10]) = some (body, []) :=
      cutAt_append_cons (fun c hc ↦ (hplain c hc).2) []
    simp only [readLine, htake, hcut]
  have hstring : cString (body ++ [10]) = body ++ [10] := by
    apply cString_of_nonul
    intro c hc
    rcases List.mem_append.mp hc with hc | hc
    · exact (hplain c hc).1
    · rw [List.mem_singleton.mp hc]
      decide
  have hlast : ∀ h : body ≠ [], ¬ (body.getLast h == 10 || body.getLast h == 13) = true := by
    intro hne hblank
    have htail : body.getLast? = some 10 ∨ body.getLast? = some 13 := by
      rw [List.getLast?_eq_some_getLast hne]
      simpa using hblank
    rcases htail with htail | htail
    · exact (hplain 10 (List.mem_of_getLast? htail)).2 rfl
    · rw [hbody] at htail
      by_cases hempty : err = []
      · exact absurd htail (by simp [hempty, bytesOf])
      · exact herr.tail (List.getLast?_append_of_ne_nil _ hempty ▸ htail)
  have htrim : trim (body ++ [10]) = body := by
    rw [trim, List.rdropWhile_concat_pos _ _ _ rfl, List.rdropWhile_eq_self_iff]
    exact hlast
  have hrest : (body.drop 3).dropWhile (fun c ↦ c == 32 || c == 9) = err := herr.start
  have hparse : wpDaemonCtlParseResponse (body ++ [10]) 256 =
      some (.error (snprintf 256 err)) := by
    unfold wpDaemonCtlParseResponse
    simp only [hstring, htrim, hrest]
    rw [if_neg (by simp; omega), if_neg, if_pos]
    · exact ⟨32 :: err, rfl⟩
    · intro hok
      exact absurd (congrArg List.head? hok) (by simp [hbody, bytesOf])
  rw [hsent, readVerdict]
  simp only [hread, hparse]
  exact if_neg (by simp)

theorem readVerdict_ok : readVerdict wpDaemonCtlEncodeOk = .ok () := rfl

theorem trim_isPrefix (s : Bytes) : trim s <+: s := List.rdropWhile_prefix _ s

theorem cString_isPrefix (s : Bytes) : cString s <+: s := List.takeWhile_prefix _

theorem readLine_isPrefix (n : ℕ) (sent : Bytes) : readLine n sent <+: sent := by
  unfold readLine
  simp only
  split
  · rename_i line rest hcut
    have hwhole : line ++ [10] <+: sent.take (n - 1) := by
      rw [(cutAt_eq_some hcut).1]
      exact ⟨rest, by simp⟩
    exact hwhole.trans (List.take_prefix _ _)
  · exact List.take_prefix _ _

/-- No front of an error reply reads as success. -/
theorem readVerdict_error_front (message : Bytes) (n : ℕ) :
    readVerdict ((wpDaemonCtlEncodeErr message).take n) ≠ .ok () := by
  intro hok
  have hverdict : wpDaemonCtlParseResponse
      (readLine 512 ((wpDaemonCtlEncodeErr message).take n)) 256 = some (.ok ()) := by
    unfold readVerdict at hok
    simp only at hok
    split at hok
    · exact absurd hok (by simp)
    · split at hok
      · rename_i hparse
        rw [hparse, hok]
      · exact absurd hok (by simp)
  have hfront : trim (cString (readLine 512 ((wpDaemonCtlEncodeErr message).take n))) <+:
      bytesOf "ERR " ++ message ++ [10] :=
    (trim_isPrefix _).trans <| (cString_isPrefix _).trans <| (readLine_isPrefix _ _).trans <|
      (List.take_prefix _ _).trans (List.take_prefix _ _)
  unfold wpDaemonCtlParseResponse at hverdict
  simp only at hverdict
  split at hverdict
  · exact absurd hverdict (by simp)
  · split at hverdict
    · rename_i hbuf
      rw [hbuf] at hfront
      obtain ⟨rest, hrest⟩ := hfront
      exact absurd (congrArg List.head? hrest) (by simp [bytesOf])
    · split at hverdict <;> exact absurd hverdict (by simp)

theorem commandArgs_words {line arg : Bytes} (h : arg ∈ commandArgs line) :
    IsWord arg ∧ ∀ c ∈ arg, c ≠ 0 := by
  have htoken := List.mem_of_mem_take h
  refine ⟨isWord_of_mem_tokens htoken, fun c hc ↦ ?_⟩
  have hmem : c ∈ cString line := List.mem_of_mem_take (mem_of_mem_tokens htoken hc)
  simpa using List.mem_takeWhile_imp hmem

/-- The reply to a refused command is a message. -/
theorem wpCommandsDispatch_error {line err : Bytes} {n : ℕ} (hn : 18 < n)
    (h : wpCommandsDispatch (commandArgs line) n = .error err) :
    IsMessage err ∧ err.length < n := by
  have hlength (text : Bytes) : (snprintf n text).length < n := by
    rw [snprintf, List.length_take]
    omega
  unfold wpCommandsDispatch at h
  split at h
  · obtain rfl := Except.error.inj h
    refine ⟨?_, hlength _⟩
    rw [snprintf, List.take_of_length_le (by simp [bytesOf]; omega)]
    exact isMessage_empty
  · rename_i cmd rest hargs
    split at h
    · exact absurd h (by simp)
    · split at h
      · exact absurd h (by simp)
      · obtain rfl := Except.error.inj h
        obtain ⟨hword, hplain⟩ := commandArgs_words (hargs ▸ List.mem_cons_self)
        refine ⟨?_, hlength _⟩
        exact isMessage_unknown hword hplain (by omega)

theorem snprintf_snprintf {m n : ℕ} (hmn : m ≤ n) (text : Bytes) :
    snprintf m (snprintf n text) = snprintf m text := by
  rw [snprintf, snprintf, snprintf, List.take_take, Nat.min_eq_left (by omega)]

/-- A refusal into a longer buffer, cut down, is the refusal into a shorter
one. -/
theorem wpCommandsDispatch_cut (args : List Bytes) {m n : ℕ} (hmn : m ≤ n) :
    wpCommandsDispatch args m = (wpCommandsDispatch args n).mapError (snprintf m) := by
  cases args with
  | nil => exact congrArg Except.error (snprintf_snprintf hmn _).symm
  | cons cmd rest =>
      simp only [wpCommandsDispatch]
      split
      · rfl
      · split
        · rfl
        · exact congrArg Except.error (snprintf_snprintf hmn _).symm

/-- A command that gets through whole has the verdict and the effect it has when
run in place; and whatever gets through, success is reported only for such a
command. -/
theorem daemon_command_sound (t : Transport) (args : List Bytes) (request : Bytes)
    (hrequest : commandRequest args = some request) :
    (request.length ≤ t.sent → 512 ≤ t.replied →
      wpSendDaemonCommand t args = runLocally (commandArgs (readLine 1024 request))) ∧
    ((wpSendDaemonCommand t args).1 = .ok () →
      request.length ≤ t.sent ∧
      wpSendDaemonCommand t args = runLocally (commandArgs (readLine 1024 request))) := by
  have hserved (hsent : request.length ≤ t.sent) : wpSendDaemonCommand t args =
      (readVerdict ((serveConnection request).2.take t.replied),
        (serveConnection request).1) := by
    simp only [wpSendDaemonCommand, hrequest]
    rw [if_neg (not_lt.mpr hsent), List.take_of_length_le hsent]
  have hlocal := wpCommandsDispatch_cut (commandArgs (readLine 1024 request))
    (show 256 ≤ 400 by decide)
  cases hverdict : wpCommandsDispatch (commandArgs (readLine 1024 request)) 400 with
  | ok r =>
      rw [hverdict] at hlocal
      have hconnection : serveConnection request = ([r], wpDaemonCtlEncodeOk) := by
        rw [serveConnection, hverdict]
      rw [hconnection] at hserved
      have hrun : runLocally (commandArgs (readLine 1024 request)) = (.ok (), [r]) := by
        rw [runLocally, hlocal]
        rfl
      rw [hrun]
      constructor
      · intro hsent hreplied
        rw [hserved hsent, List.take_of_length_le, readVerdict_ok]
        exact (List.length_take_le _ _).trans (by omega)
      · intro hok
        by_cases hsent : request.length ≤ t.sent
        · refine ⟨hsent, Prod.ext hok ?_⟩
          rw [hserved hsent]
        · simp [wpSendDaemonCommand, hrequest, not_le.mp hsent] at hok
  | error err =>
      rw [hverdict] at hlocal
      have hconnection : serveConnection request = ([], wpDaemonCtlEncodeErr err) := by
        rw [serveConnection, hverdict]
      obtain ⟨hmessage, hlength⟩ := wpCommandsDispatch_error (by decide) hverdict
      rw [hconnection] at hserved
      constructor
      · intro hsent hreplied
        rw [hserved hsent, runLocally, hlocal, List.take_of_length_le,
          readVerdict_error hmessage hlength]
        · rfl
        · exact (List.length_take_le _ _).trans (by omega)
      · intro hok
        by_cases hsent : request.length ≤ t.sent
        · rw [hserved hsent] at hok
          exact absurd hok (readVerdict_error_front err _)
        · simp [wpSendDaemonCommand, hrequest, not_le.mp hsent] at hok

theorem daemon_command_sound_debugOn :
    wpSendDaemonCommand ⟨9, 512⟩ [bytesOf "debug-on"] = (.ok (), [.debugOn]) := by
  rw [(daemon_command_sound ⟨9, 512⟩ _ (bytesOf "debug-on\n") rfl).1 (by decide) le_rfl]
  decide +kernel

end Wallpiper.Ctl.Daemon
