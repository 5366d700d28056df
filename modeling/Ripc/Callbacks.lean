import Ripc.PageText
import Ripc.Url

namespace Ripc

/-- Why the handling of a notification does not return. -/
inductive Stop
  | fault (f : MemoryFault)
  /-- It reads through an address where nothing is mapped, or through a reference to an element that was erased. -/
  | badPointer
  | throws (e : CppException)
  deriving DecidableEq, Repr

def Stop.isThrow : Stop → Prop
  | .throws _ => True
  | _ => False

section

variable {α : Type}

def onPage : Except MemoryFault α → Except Stop α := Except.mapError .fault

def throwing : Except CppException α → Except Stop α := Except.mapError .throws

end

/-- `nlohmann::json`; texts are bytes, and the members of an object lie in the order of their keys. -/
inductive Json
  | null
  | boolean (b : Bool)
  | integer (n : Int)
  | float (bits : UInt64)
  | string (text : List UInt8)
  | array (elements : List Json)
  | object (members : List (List UInt8 × Json))

/-- `nlohmann::json::parse` and `dump`; they throw where there is no result. -/
structure Nlohmann where
  parse : List UInt8 → Option Json
  dump : Json → Option StdString

namespace Nlohmann

def parsed (lib : Nlohmann) (text : List UInt8) : Except Stop Json :=
  match lib.parse text with
  | some value => .ok value
  | none => .error (.throws .parseError)

def dumped (lib : Nlohmann) (value : Json) : Except Stop StdString :=
  match lib.dump value with
  | some text => .ok text
  | none => .error (.throws .typeError)

/-- The payload of the message, parsed if it is not empty. -/
def payload (lib : Nlohmann) (rb : ReadBufferView) : Except Stop (Option Json) := do
  let (str, rb) ← onPage rb.getPayload
  match str with
  | none => .ok none
  | some view => if view.size = 0 then .ok none else (lib.parsed (rb.mem.text view)).map some

end Nlohmann

/-- Assignment to a member of an object. -/
def setMember (key : List UInt8) (value : Json) : List (List UInt8 × Json) → List (List UInt8 × Json)
  | [] => [(key, value)]
  | (k, v) :: members =>
    if key = k then (key, value) :: members
    else if key < k then (key, value) :: (k, v) :: members
    else (k, v) :: setMember key value members

def UrlToken.json : UrlToken → Json
  | .string tok => .string tok
  | .int n => .integer n

/-- `ReqRes::request`, which is null or an object. -/
structure RestRequest where
  members : Option (List (List UInt8 × Json))

namespace RestRequest

def null : RestRequest := ⟨none⟩

def json (r : RestRequest) : Json := r.members.elim .null .object

/-- `operator[]` makes an object of null. -/
def set (r : RestRequest) (key : List UInt8) (value : Json) : RestRequest :=
  ⟨some (setMember key value (r.members.getD []))⟩

/-- Null stays null. -/
def clear (r : RestRequest) : RestRequest := ⟨r.members.map fun _ => []⟩

def urlKey : List UInt8 := [117, 114, 108]

def payloadKey : List UInt8 := [112, 97, 121, 108, 111, 97, 100]

def setUrl (r : RestRequest) (url : Url) : RestRequest := r.set urlKey (.array (url.pattern.map UrlToken.json))

def setPayload (r : RestRequest) : Option Json → RestRequest
  | some value => r.set payloadKey value
  | none => r

end RestRequest

section

variable (A : Type)

/-- `UrlCallbackFull`: what was passed to `registerCallback`, or what `RESTServer::add` passes to it. The
functions of the application read and change its state `A`. -/
inductive UrlCallback
  | plain (input : Option (A → Url → ReadBufferView → Except MemoryFault A))
      (output : Option (A → WriteBufferView → A × WriteBufferView))
  | rest (request : RestRequest) (func : A → Json → A × Json)

/-- `CallbackIn`: what was passed to `Client::call`, or what `RESTClient::get` passes to it. A function of the
application is shown no reader where the mapping had failed. -/
inductive CallbackIn
  | plain (input : A → Option ReadBufferView → Except MemoryFault A)
  | get (out : A → Json → A)

end

variable {A : Type}

namespace UrlCallback

def input (lib : Nlohmann) (app : A) (url : Url) (rb : ReadBufferView) :
    UrlCallback A → Except Stop (A × UrlCallback A)
  | .plain none output => .ok (app, .plain none output)
  | .plain (some input) output => do
    let app ← onPage (input app url rb)
    .ok (app, .plain (some input) output)
  | .rest request func => do
    let payload ← lib.payload rb
    .ok (app, .rest ((request.setUrl url).setPayload payload) func)

def output (lib : Nlohmann) (app : A) (wb : WriteBufferView) :
    UrlCallback A → Except Stop (A × UrlCallback A × WriteBufferView)
  | .plain input none => .ok (app, .plain input none, wb)
  | .plain input (some output) => .ok ((output app wb).1, .plain input (some output), (output app wb).2)
  | .rest request func => do
    let text ← lib.dumped (func app request.json).2
    .ok ((func app request.json).1, .rest request.clear func, (wb.setPayload text).2)

/-- What the server does for a request: the input callback reads it, the output callback writes the answer. -/
def call (lib : Nlohmann) (app : A) (url : Url) (rb : ReadBufferView) (wb : WriteBufferView)
    (callback : UrlCallback A) : Except Stop (A × UrlCallback A × WriteBufferView) := do
  let (app, callback) ← callback.input lib app url rb
  callback.output lib app wb

end UrlCallback

def CallbackIn.run (lib : Nlohmann) (app : A) (page : Option Memory) : CallbackIn A → Except Stop A
  | .plain input => onPage (input app (page.map .new))
  | .get out =>
    match page with
    | none => .error .badPointer
    | some mem => do
      let payload ← lib.payload (.new mem)
      .ok (payload.elim app (out app))

end Ripc
