import DonationLedger.Contract.Message

namespace DonationLedger

inductive Effect where
  | bankSend (receiver : String) (amount : List Coin)
  | wasmExecute (contract : String) (message : Json) (funds : List Coin)
  /-- An attribute where an effect belongs; no host runs it. -/
  | stray (key value : String)

structure Attribute where
  key : String
  value : String
  deriving DecidableEq, Repr

def Attribute.toJson (a : Attribute) : Json := .obj [("key", .str a.key), ("value", .str a.value)]

def Effect.toJson : Effect → Json
  | bankSend receiver amount =>
      .obj [
        ("kind", .str "bank_send"),
        ("to_address", .str receiver),
        ("amount", Coin.listShape.write amount)]
  | wasmExecute contract message funds =>
      .obj [
        ("kind", .str "wasm_execute"),
        ("contract_addr", .str contract),
        ("msg", message),
        ("funds", Coin.listShape.write funds)]
  | stray key value => Attribute.toJson ⟨key, value⟩

def Effect.isWritable : Effect → Bool
  | wasmExecute _ message _ => message.height ≤ Json.greatestHeight + 1
  | _ => true

structure Response where
  effects : List Effect
  attributes : List Attribute

namespace Response

def empty : Response := ⟨[], []⟩

def ask (r : Response) (e : Effect) : Response := { r with effects := r.effects ++ [e] }

def note (r : Response) (key value : String) : Response :=
  { r with attributes := r.attributes ++ [⟨key, value⟩] }

def append (r t : Response) : Response := ⟨r.effects ++ t.effects, r.attributes ++ t.attributes⟩

def toJson (r : Response) : Json :=
  .obj [
    ("messages", .arr (r.effects.map Effect.toJson)),
    ("attributes", .arr (r.attributes.map Attribute.toJson))]

def write (r : Response) : Except Fault Json :=
  if r.effects.all Effect.isWritable then .ok r.toJson
  else .error (.badValue "a message nests too deep")

end Response

structure Caller where
  sender : String
  funds : List Coin

def Failure.toJson (f : Failure) : Json :=
  .obj [("kind", .str f.kind), ("message", .str f.message), ("details", .obj f.details)]

structure Reply where
  answer : Except Failure (Option Response)
  data : List (String × Json)

namespace Reply

def toJson (r : Reply) : Json :=
  match r.answer with
  | .ok response =>
      .obj (("ok", .bool true) :: ("data", .obj r.data)
        :: (response.map (fun t => [("response", t.toJson)])).getD [])
  | .error f => .obj [("ok", .bool false), ("data", .obj r.data), ("error", f.toJson)]

def write (r : Reply) : Except Fault Json :=
  match r.answer with
  | .ok (some t) => t.write.map (fun _ => r.toJson)
  | _ => .ok r.toJson

end Reply

end DonationLedger
