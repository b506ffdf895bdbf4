import Smolweb.Dict.Wire
import Smolweb.Lib.Crlf
import Smolweb.Lib.Duplex

/-!
# The DICT session

The command loop of `client.rs`. The stream under the session is two-way; a computation on it is
a `Client`. Writes to the stream succeed.
-/

namespace Smolweb.Dict

/-- What a server may say that the grammar does not allow, and the one thing a client may not. -/
inductive Fault where
  | notBanner (status : Status)
  | closed
  | notStatus (line : Text)
  | malformedHeader (text : Text)
  | tooLong
  deriving Repr, DecidableEq

inductive ClientError where
  | io (message : Text)
  | protocol (fault : Fault)
  /-- The server refused, with its own code and message. -/
  | refused (code : Nat) (text : Text)
  deriving Repr, DecidableEq

abbrev Client (α : Type) := DuplexM UInt8 ClientError α

def refused (status : Status) : ClientError := .refused status.code status.text

def readLine : Client Text := do
  let line ← DuplexM.readThrough 10
  if line = [] then throw (.protocol .closed)
  else
    match Utf8.decode line with
    | some text => pure text
    | none => throw (.io "stream did not contain valid UTF-8".toList)

def readStatus : Client Status := do
  let line ← readLine
  match parseStatus line with
  | some status => pure status
  | none => throw (.protocol (.notStatus line))

theorem readLine_reads : readLine.Reads := by
  refine (DuplexM.Reads.readThrough 10).bind fun line => ?_
  split
  · exact .throw _
  · split
    · exact .pure _
    · exact .throw _

/-- A line that was read has been taken off the stream. -/
theorem readLine_consumes : readLine.Consumes := by
  intro s line s' h
  unfold readLine at h
  rw [DuplexM.on_bind] at h
  cases hr : (DuplexM.readThrough 10 : Client Bytes).on s with
  | mk r t =>
    rw [hr] at h
    cases r with
    | error e => cases h
    | ok bytes =>
      have hlen := DuplexM.length_of_readThrough hr
      simp only at h
      split at h
      · cases h
      · next hne =>
        have := List.length_pos_iff.mpr hne
        split at h
        · cases h
          omega
        · cases h

theorem readStatus_reads : readStatus.Reads := by
  refine readLine_reads.bind fun line => ?_
  split
  · exact .pure _
  · exact .throw _

theorem readStatus_consumes : readStatus.Consumes := by
  refine readLine_consumes.bind fun line => ?_
  split
  · exact .pure _
  · exact .throw _

/-- `Session::over`: the greeting. -/
def Session.over : Client Status := do
  let status ← readStatus
  if status.code ≠ banner then throw (.protocol (.notBanner status)) else pure status

/-- `str::replace` of a character. -/
def replace (c : Char) (by_ text : Text) : Text := text.flatMap fun d => if d = c then by_ else [d]

def quote (param : Text) : Text :=
  if param.isEmpty || param.any (fun c => Text.isWhitespace c || c == '"') then
    ['"'] ++ replace '"' ['\\', '"'] (replace '\\' ['\\', '\\'] param) ++ ['"']
  else param

def Session.command (line : Text) : Client Status :=
  if (Utf8.encode line).length + 2 > maxLine then throw (.protocol .tooLong)
  else do
    DuplexM.write (Utf8.encode line ++ crlf)
    readStatus

/-- A turn of the loop in `read_text_block`. -/
def textLine : Client (Option Text) := do
  let line ← readLine
  pure (if isTerminator line then none else some (unstuff (trimLine line)))

def readTextBlock : Client (List Text) :=
  DuplexM.collect textLine (readLine_consumes.bind fun _ => .pure _)

theorem readTextBlock_reads : readTextBlock.Reads :=
  .collect _ (readLine_reads.bind fun _ => .pure _)

def expectOk : Client Unit := do
  let status ← readStatus
  if status.isSuccess then pure () else throw (refused status)

/-- What `databases`, `strategies` and `matches` do: send a line and read the text block that
follows one code. Another code says that there is nothing to list. -/
def Session.listing {α : Type} (line : Text) (follows nothing : Nat)
    (parse : List Text → List α) : Client (List α) := do
  let status ← Session.command line
  if status.code = follows then
    let lines ← readTextBlock
    expectOk
    pure (parse lines)
  else if status.code = nothing then pure []
  else throw (refused status)

def Session.databases : Client (List Database) :=
  Session.listing "SHOW DB".toList databasesFollow 554 parseDatabases

def Session.strategies : Client (List Database) :=
  Session.listing "SHOW STRAT".toList strategiesFollow 555 parseDatabases

def Session.matches (database strategy word : Text) : Client (List Match) :=
  Session.listing
    ("MATCH ".toList ++ quote database ++ [' '] ++ quote strategy ++ [' '] ++ quote word)
    matchesFollow noMatch parseMatches

/-- A turn of the loop in `define`, after its status line. -/
def definitionRest (status : Status) : Client (Option Definition) :=
  if status.code = definitionFollows then
    match parseDefinitionHeader status with
    | none => throw (.protocol (.malformedHeader status.text))
    | some (word, database, databaseDescription) => do
      let text ← readTextBlock
      pure (some { word, database, databaseDescription, text })
  else if status.isSuccess then pure none
  else throw (refused status)

def nextDefinition : Client (Option Definition) := do
  definitionRest (← readStatus)

theorem definitionRest_reads (status : Status) : DuplexM.Reads (definitionRest status) := by
  unfold definitionRest
  split
  · split
    · exact .throw _
    · exact readTextBlock_reads.bind fun _ => .pure _
  · split
    · exact .pure _
    · exact .throw _

theorem nextDefinition_consumes : nextDefinition.Consumes :=
  readStatus_consumes.bind definitionRest_reads

theorem nextDefinition_reads : nextDefinition.Reads :=
  readStatus_reads.bind definitionRest_reads

def Session.define (database word : Text) : Client (List Definition) := do
  let status ← Session.command ("DEFINE ".toList ++ quote database ++ [' '] ++ quote word)
  if status.code = definitionsFollow then DuplexM.collect nextDefinition nextDefinition_consumes
  else if status.code = noMatch then pure []
  else throw (refused status)

def Session.announce (text : Text) : Client Unit := do
  let status ← Session.command ("CLIENT ".toList ++ text)
  if status.isSuccess then pure () else throw (refused status)

/-! ## Calls -/

inductive Call where
  | databases
  | strategies
  | define (database word : Text)
  | find (database strategy word : Text)
  | announce (text : Text)
  deriving Repr, DecidableEq

inductive Value where
  | databases (databases : List Database)
  | definitions (definitions : List Definition)
  | found (found : List Match)
  | done
  deriving Repr, DecidableEq

def Call.exec : Call → Client Value
  | .databases => do pure (.databases (← Session.databases))
  | .strategies => do pure (.databases (← Session.strategies))
  | .define database word => do pure (.definitions (← Session.define database word))
  | .find database strategy word => do pure (.found (← Session.matches database strategy word))
  | .announce text => do
    Session.announce text
    pure .done

end Smolweb.Dict
