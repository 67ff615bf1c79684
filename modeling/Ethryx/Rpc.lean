import Ethryx.Json.Fields

/-!
# JSON-RPC inspection

`rpc.rs`: which request bodies are answered locally, and with what bytes. The
deserializer is a parameter.
-/

namespace Rpc

open Json

inductive MockResult where
  | forward
  | silent
  | reply (body : Bytes)
  deriving DecidableEq, Repr

/-- A request that passed every check. The id is its source text. -/
structure Request where
  id : Option Bytes

section
variable (d : Deserializer)

/-- A string that must be one text. -/
def exactly (text : Bytes) : De Unit :=
  andThen d.str fun value => if value = text then some () else none

def version2 : De Unit := exactly d (Bytes.ofString "2.0")

def ethSyncingMethod : De Unit := exactly d (Bytes.ofString "eth_syncing")

/-- The check `empty_params` makes of the source text. -/
def noParams (raw : Bytes) : Bool :=
  (((Bytes.trimAscii raw |> Bytes.stripPrefix lbracket).bind
    (Bytes.stripSuffix rbracket)).any fun inner => (Bytes.trimAscii inner).isEmpty)

def emptyParams : De Unit := andThen d.raw fun raw => if noParams raw then some () else none

/-- The check `present_id` makes of the source text: the first byte tells a
string and a number from everything else. -/
def idText (id : Bytes) : Bool :=
  (id.head?.any fun c => c == quote || c == 0x2d || (0x30 ≤ c && c ≤ 0x39)) || id == nullText

def presentId : De Bytes := andThen d.raw fun id => if idText id then some id else none

/-- The fields of a request. -/
inductive Field where
  | jsonrpc
  | method
  | params
  | id
  deriving DecidableEq, Repr

def Field.name : Field → Bytes
  | .jsonrpc => Bytes.ofString "jsonrpc"
  | .method => Bytes.ofString "method"
  | .params => Bytes.ofString "params"
  | .id => Bytes.ofString "id"

def Field.schema : Schema Field where
  fields := [.jsonrpc, .method, .params, .id]
  name := Field.name
  complete f := by cases f <;> decide
  injective f g := by cases f <;> cases g <;> decide

/-- What a field holds: only the id keeps its value. -/
abbrev Field.Ty : Field → Type
  | .id => Bytes
  | _ => Unit

def Field.read : (f : Field) → De f.Ty
  | .jsonrpc => version2 d
  | .method => ethSyncingMethod d
  | .params => emptyParams d
  | .id => presentId d

/-- `params` and `id` may be missing, `jsonrpc` and `method` may not. -/
def Request.ofFields (s : Slots Field.Ty) : Option Request :=
  match s .jsonrpc, s .method with
  | some (), some () => some ⟨s .id⟩
  | _, _ => none

def Request.deserialize : De Request :=
  readStruct d Field.schema (Field.read d) Request.ofFields

def replyPrefix : Bytes := Bytes.ofString "\x7b\"jsonrpc\":\"2.0\",\"id\":"

def replySuffix : Bytes := Bytes.ofString ",\"result\":false\x7d"

def appendReply (out id : Bytes) : Bytes := out ++ (replyPrefix ++ (id ++ replySuffix))

/-- The loop of `visit_seq`: whether an element came, and the reply so far. -/
structure BatchState where
  seen : Bool
  reply : Bytes

/-- One element: a request with an id adds its reply behind `[` or `,`. -/
def BatchState.push (s : BatchState) (req : Request) : BatchState where
  seen := true
  reply :=
    match req.id with
    | none => s.reply
    | some id => appendReply (s.reply ++ [if s.reply.isEmpty then lbracket else comma]) id

def BatchState.result (s : BatchState) : MockResult :=
  if s.seen = false then .forward
  else if s.reply.isEmpty then .silent
  else .reply (s.reply ++ [rbracket])

/-- Any non-local element fails inside `Request.deserialize`. -/
def Batch.deserialize : De MockResult :=
  andThen
    (d.seq (fun s : BatchState => andThen (Request.deserialize d) fun req => some (s.push req))
      ⟨false, []⟩)
    fun s => some s.result

def parseMockSyncing (bytes : Bytes) : MockResult :=
  if bytes.find? (fun b => !Bytes.isAsciiWhitespace b) = some lbracket then
    (fromSlice d (Batch.deserialize d) bytes).getD .forward
  else
    match fromSlice d (Request.deserialize d) bytes with
    | none => .forward
    | some ⟨none⟩ => .silent
    | some ⟨some id⟩ => .reply (appendReply [] id)

/-- A decoded `eth_syncing` method occurs literally or contains an escape, so a
short body with neither is forwarded without parsing it. -/
def mockSyncing (bytes : Bytes) : MockResult :=
  if bytes.length ≤ 256 ∧ isUtf8 bytes = true ∧
      Bytes.contains (Bytes.ofString "eth_syncing") bytes = false ∧ backslash ∉ bytes then
    .forward
  else parseMockSyncing d bytes

end

end Rpc
