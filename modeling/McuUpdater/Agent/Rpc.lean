import McuUpdater.Lib.PyJson

/-! `agent/rpc.py`: the answer to one inbound request, down to the bytes on the socket.
The write lock keeps a frame whole, and logging a text does not raise. -/
namespace McuUpdater.Agent
open PyText PyValue PyJson

def etx : UInt8 := 3

/-- `ERR_APPLICATION` -/
def errApplication : Int := -32000

structure Socket where
  connected : Bool
  writable : Bool

/-- The `to_dict` attribute of an exception. -/
inductive ToDict
  | absent
  | notCallable
  | returns (data : PyVal)
  | raises

/-- An exception that is no `RpcError`; `text` is `str(exc)`, which may raise. -/
structure Raised where
  typeName : Str
  text : Option Str
  toDict : ToDict

inductive HandlerOutcome
  | returns (result : PyVal)
  | rpcError (code : Int) (message : Str) (data : PyVal)
  | raises (exc : Raised)

section Model
variable (ft : FloatText) (limit : Nat) (sock : Socket)

def frame (payload : PyVal) : Except PyError Bytes :=
  (dumps ft limit payload).map fun text => encode text ++ [etx]

def response (id : PyVal) (key : String) (body : PyVal) : PyVal :=
  .dict [(.str "jsonrpc".toList, .str "2.0".toList), (.str "id".toList, id),
    (.str key.toList, body)]

/-- `_send`: the frames written. Where it raises there is none, and its callers log it. -/
def send (payload : PyVal) : List Bytes :=
  if !sock.connected then []
  else
    match frame ft limit payload with
    | .error _ => []
    | .ok data => if sock.writable then [data] else []

def respondResult (id result : PyVal) : List Bytes :=
  send ft limit sock (response id "result" result)

/-- The `error` object of a response. -/
def errorBody (code : Int) (message : Str) (data : PyVal) : PyVal :=
  .dict ([(.str "code".toList, .int code), (.str "message".toList, .str message)] ++
    if data.isNone then [] else [(.str "data".toList, data)])

def respondError (id : PyVal) (code : Int) (message : Str) (data : PyVal) : List Bytes :=
  send ft limit sock (response id "error" (errorBody code message data))

/-- `_serve_request`: the frames written once the handler is done. -/
def serveRequest (id : PyVal) : HandlerOutcome → List Bytes
  | .returns result => respondResult ft limit sock id result
  | .rpcError code message data => respondError ft limit sock id code message data
  | .raises exc =>
    match exc.text with
    -- the log line of the failure formats the exception
    | none => []
    | some text =>
      let message := if text = [] then exc.typeName else text
      match exc.toDict with
      | .raises => []
      | .returns data => respondError ft limit sock id errApplication message data
      | .absent | .notCallable => respondError ft limit sock id errApplication message .none

/-- One whole frame, whose object answers this id. -/
def BearsId (id : PyVal) (data : Bytes) : Prop :=
  ∃ key body text, dumps ft limit (response id key body) = .ok text ∧
    data = encode text ++ [etx] ∧ etx ∉ encode text

end Model

/-- What the handler hands over can be written as JSON, and describing its exception
does not raise. -/
def Answerable (id : PyVal) : Nat → HandlerOutcome → Prop
  | l + 1, .returns result => Dumpable l id ∧ Dumpable l result
  | l + 2, .rpcError code _ data => Dumpable (l + 1) id ∧ Writable code ∧ Dumpable l data
  | l + 2, .raises exc => exc.text.isSome ∧ Dumpable (l + 1) id ∧
      match exc.toDict with
      | .raises => False
      | .returns data => Dumpable l data
      | .absent | .notCallable => True
  | _, _ => False

variable {ft : FloatText} {limit : Nat} {id : PyVal}

theorem send_once_iff (key : String) (body : PyVal) :
    (∃ data, send ft limit ⟨true, true⟩ (response id key body) = [data] ∧
      BearsId ft limit id data) ↔ Dumpable limit (response id key body) := by
  rw [← dumps_isOk ft]
  cases hd : dumps ft limit (response id key body) with
  | error e => simp [send, frame, hd, Except.map]
  | ok text =>
    have hetx : etx ∉ encode text :=
      notMem_encode_of_allPrintable (allPrintable_dumps ft limit _ text hd) (by decide)
    exact iff_of_true ⟨encode text ++ [etx], by simp [send, frame, hd, Except.map], key, body, text,
      hd, rfl, hetx⟩ rfl

theorem dumpable_response (key : String) (body : PyVal) :
    Dumpable limit (response id key body) ↔
      ∃ l, limit = l + 1 ∧ Dumpable l id ∧ Dumpable l body := by
  cases limit with
  | zero => simp [response, Dumpable]
  | succ l => simp [response, Dumpable, DumpableFields, DumpableKey]

theorem dumpable_errorBody (code : Int) (message : Str) (data : PyVal) :
    Dumpable limit (errorBody code message data) ↔
      ∃ l, limit = l + 1 ∧ Writable code ∧ Dumpable l data := by
  cases limit with
  | zero => simp [errorBody, Dumpable]
  | succ l =>
    cases data <;>
      simp [errorBody, Dumpable, DumpableFields, DumpableKey, PyVal.isNone]

theorem respondError_once_iff (code : Int) (message : Str) (data : PyVal) :
    (∃ bytes, respondError ft limit ⟨true, true⟩ id code message data = [bytes] ∧
      BearsId ft limit id bytes) ↔
      ∃ l, limit = l + 2 ∧ Dumpable (l + 1) id ∧ Writable code ∧ Dumpable l data := by
  rw [respondError, send_once_iff, dumpable_response]
  constructor
  · rintro ⟨k, rfl, hid, hbody⟩
    obtain ⟨l, rfl, hcode, hdata⟩ := (dumpable_errorBody code message data).mp hbody
    exact ⟨l, rfl, hid, hcode, hdata⟩
  · rintro ⟨l, rfl, hid, hcode, hdata⟩
    exact ⟨l + 1, rfl, hid, (dumpable_errorBody code message data).mpr ⟨l, rfl, hcode, hdata⟩⟩

theorem send_length_le (sock : Socket) (payload : PyVal) :
    (send ft limit sock payload).length ≤ 1 := by
  unfold send
  split
  · simp
  · split
    · simp
    · split_ifs <;> simp

theorem serveRequest_length_le (sock : Socket) (id : PyVal) (o : HandlerOutcome) :
    (serveRequest ft limit sock id o).length ≤ 1 := by
  rcases o with result | ⟨code, message, data⟩ | ⟨typeName, _ | text, _ | _ | data | _⟩ <;>
    first
      | exact send_length_le _ _
      | exact Nat.zero_le 1

theorem serveRequest_answers_iff (ft : FloatText) (limit : Nat) (id : PyVal) (o : HandlerOutcome) :
    (∃ data, serveRequest ft limit ⟨true, true⟩ id o = [data] ∧ BearsId ft limit id data) ↔
      Answerable id limit o := by
  cases o with
  | returns result =>
    rw [serveRequest, respondResult, send_once_iff, dumpable_response]
    rcases limit with _ | l <;> simp [Answerable]
  | rpcError code message data =>
    rw [serveRequest, respondError_once_iff]
    rcases limit with _ | _ | l <;> simp [Answerable]
  | raises exc =>
    obtain ⟨typeName, text, toDict⟩ := exc
    have hwritable : Writable errApplication := by decide
    cases text with
    | none => rcases limit with _ | _ | l <;> simp [serveRequest, Answerable]
    | some text =>
      cases toDict with
      | raises => rcases limit with _ | _ | l <;> simp [serveRequest, Answerable]
      | returns data =>
        rw [serveRequest, respondError_once_iff]
        rcases limit with _ | _ | l <;> simp [Answerable, hwritable]
      | absent =>
        rw [serveRequest, respondError_once_iff]
        rcases limit with _ | _ | l <;> simp [Answerable, hwritable, Dumpable]
      | notCallable =>
        rw [serveRequest, respondError_once_iff]
        rcases limit with _ | _ | l <;> simp [Answerable, hwritable, Dumpable]

/-- A request is answered by exactly one frame bearing its id exactly when what its
handler hands over is answerable, and never by two. -/
theorem serve_request_once_iff (ft : FloatText) (limit : Nat) (id : PyVal) (o : HandlerOutcome) :
    ((∃ data, serveRequest ft limit ⟨true, true⟩ id o = [data] ∧ BearsId ft limit id data) ↔
      Answerable id limit o) ∧
    (serveRequest ft limit ⟨true, true⟩ id o).length ≤ 1 :=
  ⟨serveRequest_answers_iff ft limit id o, serveRequest_length_le _ id o⟩

theorem send_of_not_dumpable {payload : PyVal} (sock : Socket)
    (h : Dumpable limit payload = false) : send ft limit sock payload = [] := by
  have hd := dumps_isOk ft limit payload
  rw [h] at hd
  cases he : dumps ft limit payload with
  | error e => simp [send, frame, he, Except.map]
  | ok text => simp [he] at hd

/-- A handler that returns a set is never answered. -/
theorem set_result_is_never_answered :
    ∃ o, ∀ ft limit id, serveRequest ft limit ⟨true, true⟩ id o = [] := by
  refine ⟨.returns (.object false), fun ft limit id => ?_⟩
  rw [serveRequest, respondResult, send_of_not_dumpable]
  rcases limit with _ | l <;> simp [response, Dumpable, DumpableFields]

end McuUpdater.Agent
