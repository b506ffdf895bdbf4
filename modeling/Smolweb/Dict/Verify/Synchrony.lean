import Smolweb.Dict.Verify.Server

/-!
# Staying in step with a DICT server

A session makes one call after another, and the server answers every command line it is sent
(`session`). As long as every answer is of the kind its command asks for, each call reads exactly
the answer to its own command and returns what is written there. An answer of another kind is
taken for a refusal when only its first line has been read (`synchronised_iff`).
-/

namespace Smolweb.Dict

open DuplexM

/-! ## Calls and their answers -/

/-- No argument holds a CR or an LF. -/
def Call.Clean : Call → Prop
  | .databases | .strategies => True
  | .define database word => database.OneLine ∧ word.OneLine
  | .find database strategy word => database.OneLine ∧ strategy.OneLine ∧ word.OneLine
  | .announce text => text.OneLine

instance : (c : Call) → Decidable c.Clean
  | .databases | .strategies => isTrue trivial
  | .define database word => inferInstanceAs (Decidable (database.OneLine ∧ word.OneLine))
  | .find database strategy word =>
    inferInstanceAs (Decidable (database.OneLine ∧ strategy.OneLine ∧ word.OneLine))
  | .announce text => inferInstanceAs (Decidable text.OneLine)

/-- What a call sends before it waits for an answer. -/
def Call.sent (c : Call) : Bytes := (c.exec.on ⟨[], []⟩).2.written

/-- The command lines in what is sent, without their LF. -/
def commandLines (sent : Bytes) : List Bytes := (sent.splitOn 10).dropLast

/-- What a server answers to the last of the commands it has been sent. -/
abbrev Server := List Bytes → Response

/-- The answers to some command lines, after others. -/
def answers (server : Server) (asked : List Bytes) : List Bytes → List Response
  | [] => []
  | line :: lines => server (asked ++ [line]) :: answers server (asked ++ [line]) lines

/-- The calls of a session, each with what the server answers. -/
def dialogue (server : Server) (asked : List Bytes) : List Call → List (Call × List Response)
  | [] => []
  | c :: cs =>
    let lines := commandLines c.sent
    (c, answers server asked lines) :: dialogue server (asked ++ lines) cs

structure Turn where
  call : Call
  answers : List Response
  result : Except ClientError Value
  /-- What the server has written and the client has not read. -/
  unread : Bytes

def play (unread : Bytes) : List (Call × List Response) → List Turn
  | [] => []
  | (c, answers) :: rest =>
    let after := c.exec.on ⟨unread ++ answers.flatMap Response.bytes, []⟩
    ⟨c, answers, after.1, after.2.unread⟩ :: play after.2.unread rest

/-- The calls of a session with a server, from its greeting on. -/
def session (server : Server) (greeting : Line) (calls : List Call) : List Turn :=
  play (Session.over.on ⟨(greet greeting).bytes, []⟩).2.unread (dialogue server [] calls)

/-! ## What is promised -/

/-- Every line that is a parameter list is read as its parameters. -/
def ReadAs (lines : List Line) (values : List (List Text)) : Prop :=
  List.Forall₂ (fun line params => ∀ vs, Params line.text vs → params = vs) lines values

/-- The database or strategy that a line names, if it names one. -/
def databaseNamed : List Text → Option Database
  | [] | [] :: _ => none
  | [name] => some ⟨name, []⟩
  | name :: description :: _ => some ⟨name, description⟩

/-- The match that a line gives, if it gives one. -/
def matchNamed : List Text → Option Match
  | database :: word :: _ => some ⟨database, word⟩
  | _ => none

/-- The value is what is written in a response. -/
def Response.Wrote : Response → Value → Prop
  | .single _ _, v => v = .databases [] ∨ v = .definitions [] ∨ v = .found [] ∨ v = .done
  | .listing .databases _ lines _, .databases ds | .listing .strategies _ lines _, .databases ds =>
    ∃ values, ReadAs lines values ∧ ds = values.filterMap databaseNamed
  | .listing .found _ lines _, .found ms =>
    ∃ values, ReadAs lines values ∧ ms = values.filterMap matchNamed
  | .definitions _ entries _, .definitions ds => ds = entries.map Entry.definition
  | _, _ => False

/-- A call that returns, is refused or refuses to send leaves nothing unread, so that the answer to
the next command is what the next call reads, and it returns what the server wrote. -/
structure Turn.Synchronised (t : Turn) : Prop where
  stream : (∃ v, t.result = .ok v) ∨ (∃ code text, t.result = .error (.refused code text)) ∨
    t.result = .error (.protocol .tooLong) → t.unread = []
  value : ∀ v, t.result = .ok v → ∀ r ∈ t.answers, r.Wrote v

/-- The response is of the kind that the call asks for, or a single line. -/
def Response.fits : Response → Call → Bool
  | .single _ _, _ => true
  | .listing .databases _ _ _, .databases => true
  | .listing .strategies _ _ _, .strategies => true
  | .listing .found _ _ _, .find _ _ _ => true
  | .definitions _ _ _, .define _ _ => true
  | _, _ => false

/-! ## Reading listings -/

theorem readAs_splitParams (lines : List Line) :
    ReadAs lines (lines.map fun line => splitParams line.text) := by
  induction lines with
  | nil => exact .nil
  | cons line lines ih => exact .cons (fun vs h => splitParams_eq h) ih

theorem parseDatabases_eq (lines : List Line) : parseDatabases (lines.map Line.text) =
    (lines.map fun line => splitParams line.text).filterMap databaseNamed := by
  rw [parseDatabases, List.filterMap_map, List.filterMap_map]
  congr 1
  funext line
  simp only [Function.comp_apply]
  match splitParams line.text with
  | [] => rfl
  | [] :: _ => rfl
  | [_ :: _] => rfl
  | (_ :: _) :: _ :: _ => rfl

theorem parseMatches_eq (lines : List Line) : parseMatches (lines.map Line.text) =
    (lines.map fun line => splitParams line.text).filterMap matchNamed := by
  rw [parseMatches, List.filterMap_map, List.filterMap_map]
  congr 1
  funext line
  simp only [Function.comp_apply]
  match splitParams line.text with
  | [] => rfl
  | [_] => rfl
  | _ :: _ :: _ => rfl

/-! ## One call -/

def Call.line : Call → Text
  | .databases => "SHOW DB".toList
  | .strategies => "SHOW STRAT".toList
  | .define database word => "DEFINE ".toList ++ quote database ++ [' '] ++ quote word
  | .find database strategy word =>
    "MATCH ".toList ++ quote database ++ [' '] ++ quote strategy ++ [' '] ++ quote word
  | .announce text => "CLIENT ".toList ++ text

def TooLong (line : Text) : Prop := (Utf8.encode line).length + 2 > maxLine

section

variable {line : Text} {r : Response}

theorem exchange_command (h : ¬TooLong line) (s : StatusLine) :
    Exchange (Session.command line) (Utf8.encode line ++ crlf) s.bytes (.ok s.status) := by
  unfold TooLong at h
  rw [Session.command, if_neg h]
  exact .write_bind (exchange_readStatus s)

theorem exchange_command_tooLong (h : TooLong line) :
    Exchange (Session.command line) [] [] (.error (.protocol .tooLong)) := by
  unfold TooLong at h
  rw [Session.command, if_pos h]
  exact .throw _

section

variable {α : Type} {follows : Nat} (nothing : Nat) (parse : List Text → List α)

theorem exchange_listing (h : ¬TooLong line) (kind : Listing) (hkind : kind.code = follows)
    (rest : Line) (lines : List Line) (done : Success) :
    Exchange (Session.listing line follows nothing parse) (Utf8.encode line ++ crlf)
      (Response.listing kind rest lines done).bytes (.ok (parse (lines.map Line.text))) := by
  refine (exchange_command h (kind.status rest)).bind_read ?_
  have hcode : (kind.status rest).status.code = follows := hkind
  rw [if_pos hcode]
  refine (exchange_readTextBlock lines).bind_read ?_
  exact (exchange_expectOk done).bind_silent (.pure _)

theorem exchange_nothing (s : StatusLine) :
    Exchange (if s.status.code = nothing then pure [] else throw (refused s.status) :
      Client (List α)) [] [] (if s.code = nothing then .ok [] else .error (refused s.status)) := by
  show Exchange (if s.code = nothing then _ else _) _ _ _
  split
  · exact .pure _
  · exact .throw _

/-- Of any other response the first line is read. -/
theorem exchange_listing_first (h : ¬TooLong line) {s : StatusLine} (hcode : s.code ≠ follows) :
    Exchange (Session.listing line follows nothing parse) (Utf8.encode line ++ crlf) s.bytes
      (if s.code = nothing then .ok [] else .error (refused s.status)) := by
  refine (exchange_command h s).bind_silent ?_
  have hcode : s.status.code ≠ follows := hcode
  rw [if_neg hcode]
  exact exchange_nothing _ s

end

theorem exchange_define {database word : Text} (h : ¬TooLong (Call.define database word).line)
    (rest : Line) (entries : List Entry) (done : Success) :
    Exchange (Session.define database word)
      (Utf8.encode (Call.define database word).line ++ crlf)
      (Response.definitions rest entries done).bytes (.ok (entries.map Entry.definition)) := by
  refine (exchange_command h ⟨150, rest, by decide⟩).bind_read ?_
  exact exchange_definitions entries done

theorem exchange_define_first {database word : Text}
    (h : ¬TooLong (Call.define database word).line) {s : StatusLine}
    (hcode : s.code ≠ definitionsFollow) :
    Exchange (Session.define database word)
      (Utf8.encode (Call.define database word).line ++ crlf) s.bytes
      (if s.code = noMatch then .ok [] else .error (refused s.status)) := by
  refine (exchange_command h s).bind_silent ?_
  have hcode : s.status.code ≠ definitionsFollow := hcode
  rw [if_neg hcode]
  exact exchange_nothing _ s

theorem exchange_announce {text : Text} (h : ¬TooLong (Call.announce text).line) (s : StatusLine) :
    Exchange (Session.announce text) (Utf8.encode (Call.announce text).line ++ crlf) s.bytes
      (if s.status.isSuccess then .ok () else .error (refused s.status)) := by
  refine (exchange_command h s).bind_silent ?_
  split
  · exact .pure _
  · exact .throw _

end

/-- The code of the response that a call reads beyond its first line. -/
def Call.follows : Call → Option Nat
  | .databases => some 110
  | .strategies => some 111
  | .define _ _ => some 150
  | .find _ _ _ => some 152
  | .announce _ => none

/-- What a call makes of the first line of any other response. -/
def Call.verdict : Call → Status → Except ClientError Value
  | .databases, s => if s.code = 554 then .ok (.databases []) else .error (refused s)
  | .strategies, s => if s.code = 555 then .ok (.databases []) else .error (refused s)
  | .define _ _, s => if s.code = noMatch then .ok (.definitions []) else .error (refused s)
  | .find _ _ _, s => if s.code = noMatch then .ok (.found []) else .error (refused s)
  | .announce _, s => if s.isSuccess then .ok .done else .error (refused s)

theorem verdict_ok {c : Call} {s : Status} {v : Value} (h : c.verdict s = .ok v) :
    v = .databases [] ∨ v = .definitions [] ∨ v = .found [] ∨ v = .done := by
  cases c <;> (simp only [Call.verdict] at h; split at h <;> cases h) <;> simp

theorem verdict_refused (c : Call) {s : Status} (h : 100 ≤ s.code ∧ s.code < 200) :
    c.verdict s = .error (refused s) := by
  have hsuccess : s.isSuccess = false := by
    simp only [Status.isSuccess, Bool.and_eq_false_iff, decide_eq_false_iff_not]
    omega
  have hne (n : Nat) (hn : 500 ≤ n) : s.code ≠ n := by omega
  cases c
  case announce => rw [Call.verdict, hsuccess]; rfl
  all_goals exact if_neg (hne _ (by decide))

theorem map_ite {α : Type} (p : Prop) [Decidable p] (a : α) (e : ClientError) (f : α → Value) :
    (if p then .ok a else .error e : Except ClientError α).map f =
      if p then .ok (f a) else .error e := by
  split <;> rfl

section

variable {c : Call}

/-- **A single line, or a response of another kind**: its first line is all that is read. -/
theorem exec_first (h : ¬TooLong c.line) {s : StatusLine} (hcode : c.follows ≠ some s.code) :
    Exchange c.exec (Utf8.encode c.line ++ crlf) s.bytes (c.verdict s.status) := by
  have hne {n : Nat} (hn : c.follows = some n) : s.code ≠ n := fun he => hcode (he ▸ hn)
  cases c with
  | databases =>
    have := (exchange_listing_first 554 parseDatabases h (hne rfl)).map Value.databases
    rwa [map_ite] at this
  | strategies =>
    have := (exchange_listing_first 555 parseDatabases h (hne rfl)).map Value.databases
    rwa [map_ite] at this
  | define database word =>
    have := (exchange_define_first h (hne rfl)).map Value.definitions
    rwa [map_ite] at this
  | find database strategy word =>
    have := (exchange_listing_first noMatch parseMatches h (hne rfl)).map Value.found
    rwa [map_ite] at this
  | announce text =>
    have := (exchange_announce h s).map fun _ => Value.done
    rwa [map_ite] at this

/-- **A response of the kind asked for** is read to its end, and its data is what is returned. -/
theorem exec_fits (h : ¬TooLong c.line) {r : Response} (hr : r.fits c) :
    ∃ result, Exchange c.exec (Utf8.encode c.line ++ crlf) r.bytes result ∧
      ∀ v, result = .ok v → r.Wrote v := by
  cases r with
  | single line hclass =>
    have hcode : c.follows ≠ some line.code := by
      cases c <;> simp [Call.follows] <;> omega
    have := exec_first h hcode
    refine ⟨_, by rw [Response.bytes, Response.others, List.append_nil]; exact this, ?_⟩
    exact fun v hv => verdict_ok hv
  | listing kind rest lines done =>
    cases kind <;> cases c <;> simp only [Response.fits, Bool.false_eq_true] at hr
    case databases.databases =>
      have hread :=
        (exchange_listing 554 parseDatabases h .databases rfl rest lines done).map Value.databases
      refine ⟨_, hread, ?_⟩
      intro v hv
      rw [← Except.ok.inj hv]
      exact ⟨_, readAs_splitParams lines, parseDatabases_eq lines⟩
    case strategies.strategies =>
      have hread := (exchange_listing 555 parseDatabases h .strategies rfl rest lines done).map
        Value.databases
      refine ⟨_, hread, ?_⟩
      intro v hv
      rw [← Except.ok.inj hv]
      exact ⟨_, readAs_splitParams lines, parseDatabases_eq lines⟩
    case found.find =>
      have hread :=
        (exchange_listing noMatch parseMatches h .found rfl rest lines done).map Value.found
      refine ⟨_, hread, ?_⟩
      intro v hv
      rw [← Except.ok.inj hv]
      exact ⟨_, readAs_splitParams lines, parseMatches_eq lines⟩
  | definitions rest entries done =>
    cases c <;> simp only [Response.fits, Bool.false_eq_true] at hr
    refine ⟨_, (exchange_define h rest entries done).map Value.definitions, ?_⟩
    intro v hv
    rw [← Except.ok.inj hv]
    rfl

theorem exec_other (h : ¬TooLong c.line) {r : Response} (hr : ¬r.fits c) :
    Exchange c.exec (Utf8.encode c.line ++ crlf) r.first.bytes
      (.error (refused r.first.status)) := by
  have hcode : (100 ≤ r.first.code ∧ r.first.code < 200) ∧ c.follows ≠ some r.first.code := by
    cases r with
    | single line hclass => exact absurd rfl hr
    | listing kind rest lines done =>
      cases kind <;> cases c <;>
        simp_all [Response.fits, Response.first, Listing.status, Listing.code, Call.follows]
    | definitions rest entries done =>
      cases c <;> simp_all [Response.fits, Response.first, Call.follows]
  have := exec_first h hcode.2
  rwa [verdict_refused c hcode.1] at this

end

/-! ## Sending -/

theorem listing_written {α : Type} (line : Text) (follows nothing : Nat)
    (parse : List Text → List α) (s : Duplex UInt8) :
    ((Session.listing line follows nothing parse).on s).2.written =
      ((Session.command line).on s).2.written := by
  refine written_bind _ (fun status => ?_) s
  split
  · refine readTextBlock_reads.bind fun lines => Reads.bind ?_ fun _ => .pure _
    refine readStatus_reads.bind fun status => ?_
    split
    · exact .pure _
    · exact .throw _
  · split
    · exact .pure _
    · exact .throw _

/-- After its command line a call writes nothing. -/
theorem exec_written (c : Call) (s : Duplex UInt8) :
    (c.exec.on s).2.written = ((Session.command c.line).on s).2.written := by
  cases c with
  | databases => exact (written_bind _ (fun _ => .pure _) s).trans (listing_written ..)
  | strategies => exact (written_bind _ (fun _ => .pure _) s).trans (listing_written ..)
  | find database strategy word =>
    exact (written_bind _ (fun _ => .pure _) s).trans (listing_written ..)
  | define database word =>
    refine (written_bind _ (fun _ => .pure _) s).trans (written_bind _ (fun status => ?_) s)
    split
    · exact .collect _ nextDefinition_reads
    · split
      · exact .pure _
      · exact .throw _
  | announce text =>
    refine (written_bind _ (fun _ => .pure _) s).trans (written_bind _ (fun status => ?_) s)
    split
    · exact .pure _
    · exact .throw _

theorem command_written {line : Text} (h : ¬TooLong line) (s : Duplex UInt8) :
    ((Session.command line).on s).2.written = s.written ++ (Utf8.encode line ++ crlf) := by
  unfold TooLong at h
  rw [Session.command, if_neg h, on_bind]
  exact readStatus_reads.written _

theorem sent_of_not_tooLong {c : Call} (h : ¬TooLong c.line) :
    c.sent = Utf8.encode c.line ++ crlf := by
  rw [Call.sent, exec_written, command_written h, List.nil_append]

theorem exec_tooLong {c : Call} (h : TooLong c.line) :
    Exchange c.exec [] [] (.error (.protocol .tooLong)) := by
  have hcommand := exchange_command_tooLong h
  cases c <;> exact (hcommand.bind_error _).bind_error _

theorem sent_of_tooLong {c : Call} (h : TooLong c.line) : c.sent = [] := by
  have := exec_tooLong h [] []
  rw [List.append_nil] at this
  rw [Call.sent, this]

/-- What a call sends does not depend on what it reads. -/
theorem exec_written_sent (c : Call) (s : Duplex UInt8) :
    (c.exec.on s).2.written = s.written ++ c.sent := by
  by_cases h : TooLong c.line
  · rw [sent_of_tooLong h, show s = ⟨[] ++ s.unread, s.written⟩ from rfl, exec_tooLong h]
  · rw [sent_of_not_tooLong h, exec_written, command_written h]

/-! ## One command, one answer -/

theorem mem_replace {c d : Char} {by_ t : Text} (hd : d ≠ c) (hby : d ∉ by_) :
    d ∈ replace c by_ t ↔ d ∈ t := by
  rw [replace, List.mem_flatMap]
  constructor
  · rintro ⟨x, hx, hm⟩
    split at hm
    · exact absurd hm hby
    · rwa [List.mem_singleton.mp hm]
  · intro hm
    exact ⟨d, hm, by simp [hd]⟩

theorem mem_quote {c : Char} (hquote : c ≠ '"') (hbackslash : c ≠ '\\') {param : Text} :
    c ∈ quote param ↔ c ∈ param := by
  unfold quote
  split
  · rw [List.mem_append, List.mem_append, mem_replace hquote (by simp [hquote, hbackslash]),
      mem_replace hbackslash (by simp [hbackslash])]
    simp [hquote]
  · rfl

/-- Quoting hides no line break. -/
theorem oneLine_quote {param : Text} : (quote param).OneLine ↔ param.OneLine := by
  rw [Text.oneLine_iff_not_mem, Text.oneLine_iff_not_mem, mem_quote (by decide) (by decide),
    mem_quote (by decide) (by decide)]

theorem oneLine_after {start rest : Text} (h : start.OneLine) :
    (start ++ rest).OneLine ↔ rest.OneLine := by
  rw [Text.oneLine_append, and_iff_right h]

theorem oneLine_line {c : Call} : c.line.OneLine ↔ c.Clean := by
  have hspace : Text.OneLine [' '] := by decide
  cases c with
  | databases =>
    have hshow : Text.OneLine "SHOW DB".toList := by decide
    exact iff_of_true hshow trivial
  | strategies =>
    have hshow : Text.OneLine "SHOW STRAT".toList := by decide
    exact iff_of_true hshow trivial
  | define database word =>
    have hdefine : Text.OneLine "DEFINE ".toList := by decide
    show Text.OneLine ("DEFINE ".toList ++ quote database ++ [' '] ++ quote word) ↔ _
    rw [List.append_assoc, List.append_assoc, oneLine_after hdefine, Text.oneLine_append,
      oneLine_after hspace, oneLine_quote, oneLine_quote]
    rfl
  | find database strategy word =>
    have hmatch : Text.OneLine "MATCH ".toList := by decide
    show Text.OneLine ("MATCH ".toList ++ quote database ++ [' '] ++ quote strategy ++ [' '] ++
      quote word) ↔ _
    simp only [List.append_assoc]
    rw [oneLine_after hmatch, Text.oneLine_append, oneLine_after hspace, Text.oneLine_append,
      oneLine_after hspace, oneLine_quote, oneLine_quote, oneLine_quote]
    rfl
  | announce text =>
    have hclient : Text.OneLine "CLIENT ".toList := by decide
    exact oneLine_after hclient

/-- A call that sends anything sends one command line. -/
theorem commandLines_sent {c : Call} (hclean : c.Clean) (h : ¬TooLong c.line) :
    commandLines c.sent = [Utf8.encode c.line ++ [13]] := by
  have hcrlf : Utf8.encode c.line ++ crlf = Utf8.encode c.line ++ [13] ++ 10 :: [] := by
    simp only [crlf, List.append_assoc, List.cons_append, List.nil_append]
  rw [commandLines, sent_of_not_tooLong h, hcrlf, List.splitOn_append_cons_self,
    List.splitOn_eq_singleton (lf_not_mem_line (oneLine_line.mpr hclean))]
  rfl

/-- Every call gets one answer, unless its command is too long to send. -/
theorem answers_of_mem_dialogue (server : Server) (asked : List Bytes) {calls : List Call}
    (hclean : ∀ c ∈ calls, c.Clean) : ∀ x ∈ dialogue server asked calls,
      TooLong x.1.line ∧ x.2 = [] ∨ ¬TooLong x.1.line ∧ ∃ r, x.2 = [r] := by
  induction calls generalizing asked with
  | nil => exact fun x hx => absurd hx List.not_mem_nil
  | cons c calls ih =>
    intro x hx
    rcases List.mem_cons.mp hx with rfl | hx
    · by_cases h : TooLong c.line
      · left
        refine ⟨h, ?_⟩
        simp only [sent_of_tooLong h]
        rfl
      · right
        refine ⟨h, server (asked ++ [Utf8.encode c.line ++ [13]]), ?_⟩
        simp only [commandLines_sent (hclean c List.mem_cons_self) h]
        rfl
    · exact ih _ (fun d hd => hclean d (List.mem_cons_of_mem _ hd)) x hx

/-! ## Whole sessions -/

theorem others_ne_nil {r : Response} {c : Call} (hr : ¬r.fits c) : r.others ≠ [] := by
  cases r with
  | single line h => exact absurd rfl hr
  | listing kind rest lines done =>
    simp [Response.others, StatusLine.bytes, lineBytes, crlf]
  | definitions rest entries done =>
    simp [Response.others, StatusLine.bytes, lineBytes, crlf]

theorem play_cons {c : Call} {answers : List Response} {out inp : Bytes}
    {result : Except ClientError Value} (h : Exchange c.exec out inp result) {left : Bytes}
    (hbytes : answers.flatMap Response.bytes = inp ++ left) (rest : List (Call × List Response)) :
    play [] ((c, answers) :: rest) = ⟨c, answers, result, left⟩ :: play left rest := by
  simp only [play, List.nil_append, hbytes, h [] left]

/-- **One call**: from a stream with nothing unread, it stays in step exactly if the answer fits,
and then nothing is unread again. -/
theorem play_cons_iff {x : Call × List Response} (rest : List (Call × List Response))
    (hx : TooLong x.1.line ∧ x.2 = [] ∨ ¬TooLong x.1.line ∧ ∃ r, x.2 = [r]) :
    (∀ t ∈ play [] (x :: rest), t.Synchronised) ↔
      (∀ r ∈ x.2, r.fits x.1) ∧ ∀ t ∈ play [] rest, t.Synchronised := by
  obtain ⟨c, answers⟩ := x
  obtain ⟨hlong, hanswers⟩ | ⟨hlen, r, hanswers⟩ := hx
  · have hturn : Turn.Synchronised ⟨c, answers, .error (.protocol .tooLong), []⟩ :=
      ⟨fun _ => rfl, fun v hv => by cases hv⟩
    simp only at hanswers
    have hbytes : answers.flatMap Response.bytes = [] ++ [] := by rw [hanswers]; rfl
    rw [play_cons (exec_tooLong hlong) hbytes rest, List.forall_mem_cons]
    simp only [hanswers] at hturn ⊢
    simp [hturn]
  · simp only at hanswers hlen
    subst hanswers
    by_cases hr : r.fits c
    · obtain ⟨result, hexec, hwrote⟩ := exec_fits hlen hr
      have hturn : Turn.Synchronised ⟨c, [r], result, []⟩ := by
        refine ⟨fun _ => rfl, fun v hv r' hr' => ?_⟩
        rw [List.mem_singleton.mp hr']
        exact hwrote v hv
      have hbytes : [r].flatMap Response.bytes = r.bytes ++ [] := by simp
      rw [play_cons hexec hbytes rest, List.forall_mem_cons]
      simp [hturn, hr]
    · have hturn : ¬Turn.Synchronised ⟨c, [r], .error (refused r.first.status), r.others⟩ :=
        fun h => others_ne_nil hr (h.stream (.inr (.inl ⟨_, _, rfl⟩)))
      have hbytes : [r].flatMap Response.bytes = r.first.bytes ++ r.others := by
        simp [Response.bytes]
      rw [play_cons (exec_other hlen hr) hbytes rest, List.forall_mem_cons]
      simp [hturn, hr]

/-- **In step with the server**: every call of a session reads exactly the answer to its own
command, and returns what is written there, if and only if every answer is a single line or of the
kind that its command asks for. -/
theorem synchronised_iff (server : Server) (greeting : Line) (calls : List Call)
    (hclean : ∀ c ∈ calls, c.Clean) :
    (∀ t ∈ session server greeting calls, t.Synchronised) ↔
      ∀ x ∈ dialogue server [] calls, ∀ r ∈ x.2, r.fits x.1 := by
  have hover : (Session.over.on ⟨(greet greeting).bytes, []⟩).2.unread = [] := by
    have := exchange_over greeting [] []
    rw [List.append_nil] at this
    rw [this]
  rw [session, hover]
  have hanswers := answers_of_mem_dialogue server [] hclean
  generalize dialogue server [] calls = d at hanswers
  induction d with
  | nil => simp [play]
  | cons x d ih =>
    have hrest := ih fun y hy => hanswers y (List.mem_cons_of_mem _ hy)
    rw [List.forall_mem_cons]
    exact (play_cons_iff d (hanswers x List.mem_cons_self)).trans (and_congr_right fun _ => hrest)

/-- A line of letters, digits and the like. -/
def sampleLine (text : String) (h : Text.OneLine text.toList) : Line :=
  ⟨text.toList, h⟩

def sampleDone : Success := ⟨⟨250, sampleLine " ok" (by decide), by decide⟩, by decide⟩

def sampleListing (kind : Listing) : Response :=
  .listing kind (sampleLine " 1 present" (by decide)) [sampleLine "wn WordNet" (by decide)]
    sampleDone

/-- `151 dict wn`, and a line that begins with a period. -/
def sampleEntry : Entry where
  header := sampleLine " dict wn" (by decide)
  word := "dict".toList
  database := "wn".toList
  more := []
  written := by
    have hdict : Param "dict".toList "dict".toList :=
      .atom (by decide) (by simp [Text.isWhitespace])
    have hwn : Param "wn".toList "wn".toList := .atom (by decide) (by simp [Text.isWhitespace])
    have hspace : Blank [' '] := by simp [Blank, Text.isWhitespace]
    exact @Params.cons [' '] _ _ "wn".toList ' ' _ hspace hdict (by decide)
      (@Params.last [' '] _ _ hspace hwn)
  body := [sampleLine ".hidden" (by decide)]

def sampleServer : Server := fun commands =>
  if commands.length = 1 then sampleListing .databases
  else .definitions (sampleLine " 1 definitions" (by decide)) [sampleEntry] sampleDone

/-- The second call's command is too long to send. -/
def sampleCalls : List Call :=
  [.databases, .announce (List.replicate 1100 'a'), .define "*".toList "dict".toList]

theorem synchronised_iff_sample : (∀ c ∈ sampleCalls, c.Clean) ∧
    ∀ t ∈ session sampleServer (sampleLine " ready" (by decide)) sampleCalls, t.Synchronised :=
  have hclean : ∀ c ∈ sampleCalls, c.Clean := by decide +kernel
  ⟨hclean, (synchronised_iff sampleServer (sampleLine " ready" (by decide)) sampleCalls hclean).mpr
    (by decide +kernel)⟩

/-- Asked for its databases, the server lists its strategies: the call is refused, and the list and
the line after it are still to be read. -/
theorem listing_left_unread : (∀ c ∈ [Call.databases], c.Clean) ∧
    ¬∀ t ∈ session (fun _ => sampleListing .strategies) (sampleLine " ready" (by decide))
      [.databases], t.Synchronised := by
  refine ⟨by decide, fun h => ?_⟩
  have hsession : (session (fun _ => sampleListing .strategies) (sampleLine " ready" (by decide))
      [.databases]).map (fun t => (t.result, t.unread)) =
      [(.error (.refused 111 "1 present".toList), (sampleListing .strategies).others)] := by
    decide +kernel
  obtain ⟨t, _, ht, hturn, -⟩ := List.map_eq_cons_iff.mp hsession
  obtain ⟨hresult, hunread⟩ := Prod.mk.inj hturn
  have hempty := (h t (ht ▸ List.mem_cons_self)).stream (.inr (.inl ⟨_, _, hresult⟩))
  rw [hempty] at hunread
  exact others_ne_nil (c := .databases) (r := sampleListing .strategies) (by decide) hunread.symm

end Smolweb.Dict
