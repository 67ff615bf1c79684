import Ethryx.Json.Fields

/-!
# Reading the upstreams' answers

The deserializers of `health.rs`. The texts of failures that libraries word are
a parameter.
-/

namespace Health

open Json

/-! ## Numbers -/

/-- `u64::from_str`: decimal digits, with one `+` allowed before them. -/
def u64FromStr (s : Bytes) : Option UInt64 :=
  let digits := (Bytes.stripPrefix 0x2b s).getD s
  if digits ≠ [] ∧ digits.all Bytes.isAsciiDigit = true ∧ digitsValue digits < 2 ^ 64 then
    some (UInt64.ofNat (digitsValue digits))
  else none

def hexDigitsValue (b : Bytes) : Nat := b.foldl (fun n c => n * 16 + hexValue c) 0

/-- `hex_to_u64`: `0x` and digits without a leading zero. -/
def hexToU64 (s : Bytes) : Option UInt64 :=
  ((Bytes.stripPrefix 0x30 s).bind (Bytes.stripPrefix 0x78)).bind fun digits =>
    if digits = [] ∨ (1 < digits.length ∧ digits.head? = some 0x30) ∨
        digits.all isHexDigit = false then
      none
    else if hexDigitsValue digits < 2 ^ 64 then some (UInt64.ofNat (hexDigitsValue digits))
    else none

/-! ## Errors -/

inductive HealthError where
  | timeout
  | transport (s : Bytes)
  | httpStatus (status : Nat)
  | decode (s : Bytes)
  | rpc (s : Bytes)
  deriving DecidableEq, Repr

/-- The types that are read from an answer or a part of one. -/
inductive Target where
  | elBatch
  | elSyncing
  | hexQuantity
  | elBlock
  | clStatus
  | clPeers
  deriving DecidableEq, Repr

/-- The texts that libraries word: why a read failed, and a status code. -/
structure Texts where
  decode : Target → Bytes → Bytes
  status : Nat → Bytes
  /-- `LengthLimitError`. -/
  lengthLimit : Bytes

/-- `Display` of an error. -/
def HealthError.toText (texts : Texts) : HealthError → Bytes
  | .timeout => Bytes.ofString "timeout"
  | .transport s => Bytes.ofString "transport: " ++ s
  | .httpStatus status => Bytes.ofString "http " ++ texts.status status
  | .decode s => Bytes.ofString "decode: " ++ s
  | .rpc s => Bytes.ofString "rpc error: " ++ s

/-! ## Answers -/

inductive ElSyncingResult where
  | synced (b : Bool)
  | syncing (currentBlock highestBlock : UInt64)
  deriving DecidableEq, Repr

structure ElBlockResult where
  number : UInt64
  timestamp : UInt64
  deriving DecidableEq, Repr

structure ClStatus where
  headSlot : UInt64
  syncDistance : UInt64
  isSyncing : Bool
  deriving DecidableEq, Repr

/-- One response of the batch; result and error are their source texts. -/
structure RpcResponse where
  id : Int
  result : Option Bytes
  error : Option Bytes
  deriving DecidableEq, Repr

section
variable (d : Deserializer)

def decimalString : De UInt64 := andThen d.str u64FromStr

def hexString : De UInt64 := andThen d.str hexToU64

inductive SyncingField where
  | currentBlock
  | highestBlock
  deriving DecidableEq, Repr

def SyncingField.schema : Schema SyncingField where
  fields := [.currentBlock, .highestBlock]
  name
    | .currentBlock => Bytes.ofString "currentBlock"
    | .highestBlock => Bytes.ofString "highestBlock"
  complete f := by cases f <;> decide
  injective f g := by cases f <;> cases g <;> decide

def SyncingFields.ofFields (s : Slots fun _ : SyncingField => UInt64) : Option ElSyncingResult := do
  let currentBlock ← s .currentBlock
  let highestBlock ← s .highestBlock
  some (.syncing currentBlock highestBlock)

def SyncingFields.deserialize : De ElSyncingResult :=
  readStruct d SyncingField.schema (fun _ => hexString d) SyncingFields.ofFields

/-- `deserialize_any` with a visitor of booleans and objects. -/
def ElSyncingResult.deserialize : De ElSyncingResult :=
  orElse (andThen d.bool fun b => some (.synced b)) (SyncingFields.deserialize d)

inductive BlockField where
  | number
  | timestamp
  deriving DecidableEq, Repr

def BlockField.schema : Schema BlockField where
  fields := [.number, .timestamp]
  name
    | .number => Bytes.ofString "number"
    | .timestamp => Bytes.ofString "timestamp"
  complete f := by cases f <;> decide
  injective f g := by cases f <;> cases g <;> decide

def ElBlockResult.ofFields (s : Slots fun _ : BlockField => UInt64) : Option ElBlockResult := do
  let number ← s .number
  let timestamp ← s .timestamp
  some ⟨number, timestamp⟩

/-- `JsonObject<ElBlockResult>`. -/
def ElBlockResult.deserialize : De ElBlockResult :=
  readStruct d BlockField.schema (fun _ => hexString d) ElBlockResult.ofFields

inductive ResponseField where
  | id
  | result
  | error
  deriving DecidableEq, Repr

def ResponseField.schema : Schema ResponseField where
  fields := [.id, .result, .error]
  name
    | .id => Bytes.ofString "id"
    | .result => Bytes.ofString "result"
    | .error => Bytes.ofString "error"
  complete f := by cases f <;> decide
  injective f g := by cases f <;> cases g <;> decide

abbrev ResponseField.Ty : ResponseField → Type
  | .id => Int
  | .result => Option Bytes
  | .error => Option Bytes

def ResponseField.read : (f : ResponseField) → De f.Ty
  | .id => d.i64
  | .result => d.option d.raw
  | .error => d.option d.raw

/-- A missing result or error is none, as a null one is. -/
def RpcResponse.ofFields (s : Slots ResponseField.Ty) : Option RpcResponse :=
  (s .id).map fun id => ⟨id, (s .result).getD none, (s .error).getD none⟩

/-- `JsonObject<RpcResponse>`. -/
def RpcResponse.deserialize : De RpcResponse :=
  readStruct d ResponseField.schema (ResponseField.read d) RpcResponse.ofFields

/-- `[JsonObject<RpcResponse>; 3]`. -/
def threeResponses : De (List RpcResponse) :=
  andThen
    (d.seq (fun (acc : List RpcResponse) =>
      if acc.length = 3 then fun _ => none
      else andThen (RpcResponse.deserialize d) fun resp => some (acc ++ [resp])) [])
    fun acc => if acc.length = 3 then some acc else none

/-! ## The batch -/

/-- The slot of a response id, counted from 1. -/
def slotIndex (id : Int) : Option (Fin 3) :=
  if id < 0 then none
  else if id.toNat = 0 then none
  else if h : id.toNat - 1 < 3 then some ⟨id.toNat - 1, h⟩
  else none

def unexpectedId : HealthError :=
  .decode (Bytes.ofString "duplicate or unexpected response id")

abbrev ResponseSlots := Fin 3 → Option RpcResponse

/-- Put one response into its slot. -/
def placeResponse (slots : ResponseSlots) (resp : RpcResponse) :
    Except HealthError ResponseSlots :=
  match slotIndex resp.id with
  | none => .error unexpectedId
  | some idx =>
    match slots idx with
    | some _ => .error unexpectedId
    | none => .ok (Function.update slots idx (some resp))

/-- The result of a slot: an error takes precedence. -/
def decodeRes (slots : ResponseSlots) (idx : Fin 3) : Except HealthError Bytes :=
  match slots idx with
  | none =>
    .error (.decode (Bytes.ofString "missing response for id " ++
      Bytes.ofString (toString (idx.val + 1))))
  | some resp =>
    match resp.error with
    | some err => .error (.rpc err)
    | none =>
      match resp.result with
      | some raw => .ok raw
      | none => .error (.decode (Bytes.ofString "missing result"))

/-- `serde_json::from_str` or `from_slice`, with its failure as a decode error. -/
def readAs {α : Type} (texts : Texts) (target : Target) (de : De α) (b : Bytes) :
    Except HealthError α :=
  match fromSlice d de b with
  | some x => .ok x
  | none => .error (.decode (texts.decode target b))

structure ElBatchResult where
  syncing : Except HealthError ElSyncingResult
  peers : Except HealthError UInt64
  block : Except HealthError ElBlockResult

def ElBatchResult.fromError (error : HealthError) : ElBatchResult :=
  ⟨.error error, .error error, .error error⟩

def parseElBatch (texts : Texts) (body : Bytes) : Except HealthError ElBatchResult := do
  let arr ← readAs d texts .elBatch (threeResponses d) body
  let slots ← arr.foldlM placeResponse fun _ => none
  .ok {
    syncing := decodeRes slots 0 >>= readAs d texts .elSyncing (ElSyncingResult.deserialize d)
    peers := decodeRes slots 1 >>= readAs d texts .hexQuantity (hexString d)
    block := decodeRes slots 2 >>= readAs d texts .elBlock (ElBlockResult.deserialize d) }

/-! ## The Beacon API -/

inductive EnvelopeField where
  | data
  deriving DecidableEq, Repr

def EnvelopeField.schema : Schema EnvelopeField where
  fields := [.data]
  name _ := Bytes.ofString "data"
  complete f := by cases f; decide
  injective f g := by cases f; cases g; decide

/-- `JsonObject<ClEnvelope<T>>`, whose data is a `JsonObject<T>`. -/
def ClEnvelope.deserialize {α : Type} (data : De α) : De α :=
  readStruct d EnvelopeField.schema (α := fun _ => α) (fun _ => data) fun s => s .data

def parseClResponse {α : Type} (texts : Texts) (target : Target) (data : De α) (body : Bytes) :
    Except Bytes α :=
  match fromSlice d (ClEnvelope.deserialize d data) body with
  | some x => .ok x
  | none => .error (Bytes.ofString "decode: " ++ texts.decode target body)

inductive StatusField where
  | headSlot
  | syncDistance
  | isSyncing
  deriving DecidableEq, Repr

def StatusField.schema : Schema StatusField where
  fields := [.headSlot, .syncDistance, .isSyncing]
  name
    | .headSlot => Bytes.ofString "head_slot"
    | .syncDistance => Bytes.ofString "sync_distance"
    | .isSyncing => Bytes.ofString "is_syncing"
  complete f := by cases f <;> decide
  injective f g := by cases f <;> cases g <;> decide

abbrev StatusField.Ty : StatusField → Type
  | .headSlot => UInt64
  | .syncDistance => UInt64
  | .isSyncing => Bool

def StatusField.read : (f : StatusField) → De f.Ty
  | .headSlot => decimalString d
  | .syncDistance => decimalString d
  | .isSyncing => d.bool

def ClStatus.ofFields (s : Slots StatusField.Ty) : Option ClStatus := do
  let headSlot ← s .headSlot
  let syncDistance ← s .syncDistance
  let isSyncing ← s .isSyncing
  some ⟨headSlot, syncDistance, isSyncing⟩

def ClStatus.deserialize : De ClStatus :=
  readStruct d StatusField.schema (StatusField.read d) ClStatus.ofFields

inductive PeersField where
  | connected
  deriving DecidableEq, Repr

def PeersField.schema : Schema PeersField where
  fields := [.connected]
  name _ := Bytes.ofString "connected"
  complete f := by cases f; decide
  injective f g := by cases f; cases g; decide

def Peers.deserialize : De UInt64 :=
  readStruct d PeersField.schema (α := fun _ => UInt64) (fun _ => decimalString d)
    fun s => s .connected

end

end Health
