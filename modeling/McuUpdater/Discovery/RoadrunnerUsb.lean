import McuUpdater.Discovery.Dfu
import McuUpdater.Lib.Crc
import McuUpdater.Lib.Except

/-! `scripts/roadrunner_usb.py`: a board's replies over its direct USB endpoint, and the INFO payload
in them. -/
namespace McuUpdater.RoadrunnerUsb
open PyText Bytes Discovery Crc ExceptList

/-- What raises. An index or an unpacking that is out of range is Python's, and not meant. -/
inductive Raised
  | protocolError (message : String)
  | indexError
  | valueError
  | unicodeDecodeError
  deriving DecidableEq

def sync : List UInt8 := [0x52, 0x52]
def version : UInt8 := 1
def info : UInt8 := 0x01

/-- One of the eight rounds of `crc8` for a byte -/
def crcRound (value : UInt8) : UInt8 :=
  if value &&& 0x80 ≠ 0 then (value <<< 1) ^^^ 0x07 else value <<< 1

def crc8 (data : List UInt8) : UInt8 := data.foldl (fun value byte => crcRound^[8] (value ^^^ byte)) 0

/-- `data[i]` -/
def byteAt (data : List UInt8) (i : Nat) : Except Raised UInt8 :=
  match data[i]? with
  | some b => .ok b
  | none => .error .indexError

/-- `read_response`, from a port whose `read(n)` may be short -/
def readResponse {σ : Type} (read : Nat → σ → List UInt8 × σ) (opcode : UInt8) (port : σ) :
    Except Raised ((UInt8 × List UInt8) × σ) :=
  let (header, port) := read 5 port
  if header.length ≠ 5 then .error (.protocolError "short response header")
  else do
    if header.take 2 ≠ sync ∨ (← byteAt header 2) ≠ version ∨
        (← byteAt header 3) ≠ opcode ||| 0x80 then
      .error (.protocolError "response header does not match request")
    else
      let size ← byteAt header 4
      let (payload, port) := read size.toNat port
      let (crc, port) := read 1 port
      if payload.length ≠ size.toNat ∨ crc.length ≠ 1 then
        .error (.protocolError "short response payload")
      else if crc8 (header ++ payload) ≠ (← byteAt crc 0) then
        .error (.protocolError "response CRC mismatch")
      else
        match payload with
        | [] => .error (.protocolError "response has no status")
        | status :: rest => .ok ((status, rest), port)

/-- A port on which these bytes arrive, and then no more before the timeout. -/
def readBytes (n : Nat) (arriving : List UInt8) : List UInt8 × List UInt8 :=
  (arriving.take n, arriving.drop n)

/-- `_take` -/
def take (payload : List UInt8) (offset maximum : Nat) (field : String) :
    Except Raised (List UInt8 × Nat) :=
  if payload.length ≤ offset then .error (.protocolError ("INFO is missing " ++ field ++ " length"))
  else do
    let size ← byteAt payload offset
    let offset := offset + 1
    if maximum < size.toNat ∨ payload.length < offset + size.toNat then
      .error (.protocolError ("INFO has invalid " ++ field ++ " length"))
    else .ok (slice payload offset size.toNat, offset + size.toNat)

def digestNone : UInt8 := 0

structure ImageFields where
  digestAlgorithm : Nat
  digest : Option Nat
  imageStart : Nat
  imageLength : Nat
  deriving DecidableEq

/-- `_parse_digest`; none of the fields for a payload that has ended -/
def parseDigest (payload : List UInt8) (offset : Nat) : Except Raised (Option ImageFields) :=
  if payload.length ≤ offset then .ok none
  else do
    let algorithm ← byteAt payload offset
    let (digest, offset) ← take payload (offset + 1) 4 "digest"
    if payload.length < offset + 8 then
      .error (.protocolError "INFO is missing the digest image range")
    else if algorithm = digestNone ∧ digest ≠ [] then
      .error (.protocolError "INFO reports no digest algorithm but carries a digest")
    else
      .ok (some {
        digestAlgorithm := algorithm.toNat
        digest := if digest ≠ [] then some (decode digest) else none
        imageStart := decode (slice payload offset 4)
        imageLength := decode (slice payload (offset + 4) 4) })

structure Info where
  protocol : Nat
  provisioned : Bool
  status : Nat
  storeState : Nat
  transport : Nat
  ledOrder : Nat
  model : Str
  fwVersion : Str
  serial : Str
  flashUid : Str
  image : Option ImageFields
  deriving DecidableEq

/-- `data.decode("ascii")` -/
def decodeAscii (data : List UInt8) : Except Raised Str :=
  if data.all (· < 0x80) then .ok (data.map fun b => Char.ofNat b.toNat)
  else .error .unicodeDecodeError

/-- `except UnicodeDecodeError` -/
def asProtocolError {α : Type} : Except Raised α → Except Raised α
  | .error .unicodeDecodeError => .error (.protocolError "INFO strings are not ASCII")
  | x => x

/-- `parse_info` -/
def parseInfo (status : UInt8) (payload : List UInt8) : Except Raised Info :=
  if payload.length < 4 + 8 then .error (.protocolError "INFO payload is too short")
  else do
    let (storeState, transport, ledOrder) ← match payload.take 3 with
      | [storeState, transport, ledOrder] => .ok (storeState, transport, ledOrder)
      | _ => .error .valueError
    let (model, offset) ← take payload 3 13 "model"
    let (version', offset) ← take payload offset 32 "firmware version"
    let (serial, offset) ← take payload offset 33 "serial"
    if payload.length < offset + 8 then .error (.protocolError "INFO is missing the flash UID")
    else
      let flashUid := slice payload offset 8
      let offset := offset + 8
      let (modelText, versionText, serialText) ← asProtocolError (do
        let modelText ← decodeAscii model
        let versionText ← decodeAscii version'
        let serialText ← decodeAscii serial
        .ok (modelText, versionText, serialText))
      let image ← parseDigest payload offset
      .ok {
        protocol := version.toNat
        provisioned := status = 0
        status := status.toNat
        storeState := storeState.toNat
        transport := transport.toNat
        ledOrder := ledOrder.toNat
        model := modelText
        fwVersion := versionText
        serial := serialText
        flashUid := flashUid.flatMap fun b => upperHex 2 b.toNat
        image }

/-! ## What is raised -/

/-- It returns, or raises `ProtocolError`. -/
def OnlyProtocol {α : Type} (x : Except Raised α) : Prop :=
  ∀ e, x = .error e → ∃ message, e = .protocolError message

section Raising
variable {α β : Type} {x : Except Raised α} {payload : List UInt8} {offset maximum : Nat}

theorem onlyProtocol_ok (a : α) : OnlyProtocol (.ok a) := by
  intro e he
  cases he

theorem onlyProtocol_error (message : String) :
    OnlyProtocol (.error (.protocolError message) : Except Raised α) := by
  intro e he
  cases he
  exact ⟨message, rfl⟩

theorem onlyProtocol_bind {f : α → Except Raised β} (hx : OnlyProtocol x)
    (hf : ∀ a, x = .ok a → OnlyProtocol (f a)) : OnlyProtocol (x >>= f) := by
  cases x with
  | error e =>
    intro e' he
    cases he
    exact hx e rfl
  | ok a => exact hf a rfl

theorem byteAt_of_lt {data : List UInt8} {i : Nat} (h : i < data.length) :
    byteAt data i = .ok data[i] := by
  rw [byteAt, List.getElem?_eq_getElem h]

theorem onlyProtocol_byteAt {data : List UInt8} {i : Nat} (h : i < data.length) :
    OnlyProtocol (byteAt data i) := by
  rw [byteAt_of_lt h]
  exact onlyProtocol_ok _

theorem onlyProtocol_take (payload : List UInt8) (offset maximum : Nat) (field : String) :
    OnlyProtocol (take payload offset maximum field) := by
  rw [take]
  split_ifs with hend
  · exact onlyProtocol_error _
  · refine onlyProtocol_bind (onlyProtocol_byteAt (Nat.lt_of_not_le hend)) fun size _ => ?_
    dsimp only
    split_ifs
    · exact onlyProtocol_error _
    · exact onlyProtocol_ok _

theorem onlyProtocol_parseDigest (payload : List UInt8) (offset : Nat) :
    OnlyProtocol (parseDigest payload offset) := by
  rw [parseDigest]
  split_ifs with hend
  · exact onlyProtocol_ok _
  · refine onlyProtocol_bind (onlyProtocol_byteAt (Nat.lt_of_not_le hend)) fun algorithm _ => ?_
    refine onlyProtocol_bind (onlyProtocol_take _ _ _ _) ?_
    rintro ⟨digest, next⟩ -
    dsimp only
    split_ifs
    · exact onlyProtocol_error _
    · exact onlyProtocol_error _
    · exact onlyProtocol_ok _
    · exact onlyProtocol_ok _

theorem decodeAscii_error {data : List UInt8} {e : Raised} (h : decodeAscii data = .error e) :
    e = .unicodeDecodeError := by
  rw [decodeAscii] at h
  split_ifs at h
  cases h
  rfl

theorem decodeTexts_error {a b c : List UInt8} {e : Raised}
    (h : (do
      let s ← decodeAscii a
      let t ← decodeAscii b
      let u ← decodeAscii c
      .ok (s, t, u)) = .error e) : e = .unicodeDecodeError := by
  cases ha : decodeAscii a with
  | error d =>
    rw [ha] at h
    cases h
    exact decodeAscii_error ha
  | ok s =>
    cases hb : decodeAscii b with
    | error d =>
      rw [ha, hb] at h
      cases h
      exact decodeAscii_error hb
    | ok t =>
      cases hc : decodeAscii c with
      | error d =>
        rw [ha, hb, hc] at h
        cases h
        exact decodeAscii_error hc
      | ok u =>
        rw [ha, hb, hc] at h
        cases h

theorem onlyProtocol_asProtocolError (h : ∀ e, x = .error e → e = .unicodeDecodeError) :
    OnlyProtocol (asProtocolError x) := by
  cases x with
  | ok a => exact onlyProtocol_ok a
  | error e =>
    obtain rfl := h e rfl
    exact onlyProtocol_error _

theorem take_three {data : List UInt8} (h : 3 ≤ data.length) : ∃ a b c, data.take 3 = [a, b, c] := by
  have hlength : (data.take 3).length = 3 := by rw [List.length_take, Nat.min_eq_left h]
  exact List.length_eq_three.mp hlength

theorem onlyProtocol_parseInfo (status : UInt8) (payload : List UInt8) :
    OnlyProtocol (parseInfo status payload) := by
  rw [parseInfo]
  split_ifs with hshort
  · exact onlyProtocol_error _
  · have hlength : 3 ≤ payload.length := by omega
    obtain ⟨a, b, c, hthree⟩ := take_three hlength
    rw [hthree]
    refine onlyProtocol_bind (onlyProtocol_ok _) ?_
    rintro ⟨storeState, transport, ledOrder⟩ -
    refine onlyProtocol_bind (onlyProtocol_take _ _ _ _) ?_
    rintro ⟨model, offset⟩ -
    refine onlyProtocol_bind (onlyProtocol_take _ _ _ _) ?_
    rintro ⟨version', offset⟩ -
    refine onlyProtocol_bind (onlyProtocol_take _ _ _ _) ?_
    rintro ⟨serial, offset⟩ -
    dsimp only
    split_ifs
    · exact onlyProtocol_error _
    · refine onlyProtocol_bind (onlyProtocol_asProtocolError (fun e he => ?_)) ?_
      · exact decodeTexts_error he
      · rintro ⟨modelText, versionText, serialText⟩ -
        exact onlyProtocol_bind (onlyProtocol_parseDigest _ _) fun image _ => onlyProtocol_ok _

/-- Whatever the port's `read` gives, also where it is not what was asked for. -/
theorem onlyProtocol_readResponse {σ : Type} (read : Nat → σ → List UInt8 × σ) (opcode : UInt8)
    (port : σ) : OnlyProtocol (readResponse read opcode port) := by
  rw [readResponse]
  obtain ⟨header, port⟩ := read 5 port
  dsimp only
  split_ifs with hheader
  · exact onlyProtocol_error _
  · have hlength : header.length = 5 := not_not.mp hheader
    refine onlyProtocol_bind (onlyProtocol_byteAt (by omega)) fun protocol _ => ?_
    refine onlyProtocol_bind (onlyProtocol_byteAt (by omega)) fun answered _ => ?_
    split_ifs
    · exact onlyProtocol_error _
    · refine onlyProtocol_bind (onlyProtocol_byteAt (by omega)) fun size _ => ?_
      obtain ⟨payload, port⟩ := read size.toNat port
      obtain ⟨crc, port⟩ := read 1 port
      dsimp only
      split_ifs with hshort
      · exact onlyProtocol_error _
      · have hcrc : crc.length = 1 := not_not.mp (not_or.mp hshort).2
        refine onlyProtocol_bind (onlyProtocol_byteAt (by omega)) fun sum _ => ?_
        split_ifs
        · exact onlyProtocol_error _
        · cases payload with
          | nil => exact onlyProtocol_error _
          | cons status rest => exact onlyProtocol_ok _

end Raising

/-! ## Replies -/

/-- The body of a reply on the wire, before its check -/
def replyBody (opcode : UInt8) (payload : List UInt8) : List UInt8 :=
  sync ++ [version, opcode ||| 0x80, UInt8.ofNat payload.length] ++ payload

def reply (opcode : UInt8) (payload : List UInt8) : List UInt8 :=
  replyBody opcode payload ++ [crc8 (replyBody opcode payload)]

def frameBits (frame : List UInt8) : List Bool := bits (frame.map UInt8.toBitVec)

section Checking
variable {opcode status : UInt8} {payload rest arriving : List UInt8}

theorem crcRound_toBitVec (value : UInt8) : (crcRound value).toBitVec = shift 7 value.toBitVec := by
  have hall : ∀ b : BitVec 8, (crcRound (.ofBitVec b)).toBitVec = shift 7 b := by decide +kernel
  exact hall value.toBitVec

theorem iterate_crcRound (n : Nat) (value : UInt8) :
    (crcRound^[n] value).toBitVec = (shift 7)^[n] value.toBitVec := by
  induction n generalizing value with
  | zero => rfl
  | succ n ih => rw [Function.iterate_succ_apply, Function.iterate_succ_apply, ih, crcRound_toBitVec]

theorem crc8_toBitVec (data : List UInt8) : (crc8 data).toBitVec = remainder 7 0 (frameBits data) := by
  have hfold : ∀ value : UInt8,
      (data.foldl (fun value byte => crcRound^[8] (value ^^^ byte)) value).toBitVec =
        (data.map UInt8.toBitVec).foldl (fun r b => (shift 7)^[8] (r ^^^ b)) value.toBitVec := by
    induction data with
    | nil => exact fun value => rfl
    | cons byte data ih =>
      intro value
      rw [List.foldl_cons, ih, iterate_crcRound, UInt8.toBitVec_xor]
      rfl
  rw [crc8, hfold, foldl_shift]
  rfl

theorem crc8_append_self (body : List UInt8) : crc8 (body ++ [crc8 body]) = 0 := by
  have hself : crcRound^[8] (crc8 body ^^^ crc8 body) = 0 := by
    rw [UInt8.xor_self]
    decide
  rw [crc8, List.foldl_append]
  exact hself

theorem crc8_ne_of_burst {a b : List UInt8} (h : Burst 8 (frameBits a) (frameBits b)) :
    crc8 a ≠ crc8 b := by
  intro hsame
  refine remainder_ne_of_burst (g := 7) (by decide) h 0 ?_
  rw [← crc8_toBitVec, ← crc8_toBitVec, hsame]

theorem ok_bind {α β : Type} (a : α) (f : α → Except Raised β) : (Except.ok a >>= f) = f a := rfl

theorem five_of_length {header : List UInt8} (h : header.length = 5) :
    ∃ a b c d e, header = [a, b, c, d, e] := by
  match header, h with
  | [a, b, c, d, e], _ => exact ⟨a, b, c, d, e, rfl⟩

section Ports
variable {σ : Type} {read : Nat → σ → List UInt8 × σ} {port afterHeader afterPayload afterCrc : σ}
  {size : UInt8} {crc : List UInt8}

theorem readResponse_header {result : (UInt8 × List UInt8) × σ} {header : List UInt8}
    (hread : read 5 port = (header, afterHeader)) (h : readResponse read opcode port = .ok result) :
    ∃ size, header = sync ++ [version, opcode ||| 0x80, size] := by
  rw [readResponse, hread] at h
  dsimp only at h
  split_ifs at h with hlength
  obtain ⟨a, b, c, d, size, rfl⟩ := five_of_length (not_not.mp hlength)
  by_cases hmatch : [a, b] ≠ sync ∨ c ≠ version ∨ d ≠ opcode ||| 0x80
  · change (if [a, b] ≠ sync ∨ c ≠ version ∨ d ≠ opcode ||| 0x80 then _ else _) = _ at h
    rw [if_pos hmatch] at h
    cases h
  · simp only [not_or, not_not] at hmatch
    obtain ⟨hsync, rfl, rfl⟩ := hmatch
    exact ⟨size, by rw [← hsync]; rfl⟩

theorem readResponse_matching
    (hheader : read 5 port = (sync ++ [version, opcode ||| 0x80, size], afterHeader))
    (hpayload : read size.toNat afterHeader = (payload, afterPayload))
    (hcrc : read 1 afterPayload = (crc, afterCrc)) :
    readResponse read opcode port =
      (if payload.length ≠ size.toNat ∨ crc.length ≠ 1 then
        .error (.protocolError "short response payload")
      else do
        if crc8 (sync ++ [version, opcode ||| 0x80, size] ++ payload) ≠ (← byteAt crc 0) then
          .error (.protocolError "response CRC mismatch")
        else
          match payload with
          | [] => .error (.protocolError "response has no status")
          | status :: rest => .ok ((status, rest), afterCrc)) := by
  have hmatch : ¬([0x52, 0x52] ≠ sync ∨ version ≠ version ∨ opcode ||| 0x80 ≠ opcode ||| 0x80) := by
    simp [sync]
  have hlength : ¬(sync ++ [version, opcode ||| 0x80, size]).length ≠ 5 := by simp [sync]
  rw [readResponse, hheader]
  dsimp only
  rw [if_neg hlength]
  change (if [0x52, 0x52] ≠ sync ∨ version ≠ version ∨ opcode ||| 0x80 ≠ opcode ||| 0x80 then _
    else _) = _
  rw [if_neg hmatch]
  have hsize : byteAt (sync ++ [version, opcode ||| 0x80, size]) 4 = .ok size := rfl
  rw [hsize, ok_bind, hpayload]
  dsimp only
  rw [hcrc]

end Ports

theorem toNat_ofNat_length (h : payload.length < 256) :
    (UInt8.ofNat payload.length).toNat = payload.length := by
  rw [UInt8.toNat_ofNat']
  exact Nat.mod_eq_of_lt h

theorem readResponse_reply (h : (status :: payload).length < 256) :
    readResponse readBytes opcode (reply opcode (status :: payload) ++ rest) =
      .ok ((status, payload), rest) := by
  have hsize := toNat_ofNat_length h
  have hpayload : readBytes (UInt8.ofNat (status :: payload).length).toNat
      (status :: payload ++ crc8 (replyBody opcode (status :: payload)) :: rest) =
        (status :: payload, crc8 (replyBody opcode (status :: payload)) :: rest) := by
    rw [readBytes, hsize, List.take_left', List.drop_left']
    · rfl
    · rfl
  have hheader : readBytes 5 (reply opcode (status :: payload) ++ rest) =
      (sync ++ [version, opcode ||| 0x80, UInt8.ofNat (status :: payload).length],
        status :: payload ++ crc8 (replyBody opcode (status :: payload)) :: rest) := by
    simp [readBytes, reply, replyBody, sync]
  rw [readResponse_matching hheader hpayload rfl, hsize]
  simp [byteAt, ok_bind, replyBody]

theorem readResponse_ok (h : readResponse readBytes opcode arriving = .ok ((status, payload), rest)) :
    (status :: payload).length < 256 ∧ arriving = reply opcode (status :: payload) ++ rest := by
  obtain ⟨size, hheader⟩ := readResponse_header rfl h
  have hread : readBytes 5 arriving = (sync ++ [version, opcode ||| 0x80, size], arriving.drop 5) := by
    rw [readBytes, hheader]
  rw [readResponse_matching hread rfl rfl] at h
  split_ifs at h with hshort
  obtain ⟨sum, hsum, h⟩ := bind_ok h
  split_ifs at h with hcheck
  cases hpayload : (arriving.drop 5).take size.toNat with
  | nil =>
    rw [hpayload] at h
    cases h
  | cons first others =>
    rw [hpayload] at h
    cases h
    simp only [not_or, not_not] at hshort hcheck
    obtain ⟨hlength, hone⟩ := hshort
    rw [hpayload] at hlength hcheck
    have hsize : UInt8.ofNat (status :: payload).length = size := by
      rw [hlength, UInt8.ofNat_toNat]
    have hbody : replyBody opcode (status :: payload) =
        sync ++ [version, opcode ||| 0x80, size] ++ status :: payload := by
      rw [replyBody, hsize]
    have hcrc : [sum] = ((arriving.drop 5).drop size.toNat).take 1 := by
      obtain ⟨b, hb⟩ := List.length_eq_one_iff.mp hone
      rw [hb] at hsum ⊢
      cases hsum
      rfl
    refine ⟨by rw [hlength]; exact size.toNat_lt, ?_⟩
    rw [reply, hbody, hcheck, hcrc, ← hpayload, ← hheader]
    simp only [List.append_assoc, List.take_append_drop]

theorem length_reply (opcode : UInt8) (payload : List UInt8) :
    (reply opcode payload).length = payload.length + 6 := by
  simp [reply, replyBody, sync]

theorem reply_size (opcode : UInt8) (payload rest : List UInt8) :
    (reply opcode payload ++ rest)[4]? = some (UInt8.ofNat payload.length) := by
  simp [reply, replyBody, sync]

theorem length_frameBits (frame : List UInt8) : (frameBits frame).length = frame.length * 8 := by
  rw [frameBits, length_bits, List.length_map]

/-- A reply with a burst of errors outside its length byte is read as one of the same length, and
then its check fails. -/
theorem refused_of_burst {frame altered : List UInt8} {result : UInt8 × List UInt8}
    (h : readResponse readBytes opcode frame = .ok (result, []))
    (hburst : Burst 8 (frameBits frame) (frameBits altered)) (hsize : altered[4]? = frame[4]?)
    (rest : List UInt8) :
    ∃ message, readResponse readBytes opcode (altered ++ rest) = .error (.protocolError message) := by
  cases hread : readResponse readBytes opcode (altered ++ rest) with
  | error e =>
    obtain ⟨message, rfl⟩ := onlyProtocol_readResponse readBytes opcode (altered ++ rest) e hread
    exact ⟨message, rfl⟩
  | ok read =>
    exfalso
    obtain ⟨status, payload⟩ := result
    obtain ⟨⟨status', payload'⟩, rest'⟩ := read
    obtain ⟨hlength, hframe⟩ := readResponse_ok h
    obtain ⟨hlength', haltered⟩ := readResponse_ok hread
    have hsame : altered.length = frame.length := by
      have hbits := hburst.1
      rw [length_frameBits, length_frameBits] at hbits
      omega
    have hlong : frame.length = (status :: payload).length + 6 := by
      rw [hframe, List.append_nil, length_reply]
    have hpayload : (status' :: payload').length = (status :: payload).length := by
      have hread4 : (altered ++ rest)[4]? = altered[4]? := List.getElem?_append_left (by omega)
      rw [← hread4, haltered, reply_size, hframe, reply_size] at hsize
      have hbyte := congrArg UInt8.toNat (Option.some.inj hsize)
      rwa [toNat_ofNat_length hlength, toNat_ofNat_length hlength'] at hbyte
    have hreply : altered = reply opcode (status' :: payload') := by
      refine (List.append_inj haltered ?_).1
      rw [length_reply, hpayload, hsame, hlong]
    rw [List.append_nil] at hframe
    refine crc8_ne_of_burst hburst ?_
    rw [hframe, hreply, reply, reply, crc8_append_self, crc8_append_self]

end Checking

/-! ## INFO -/

/-- What a board that can report its image has of it; `unknown` are fields that no host knows. -/
structure BoardImage where
  algorithm : UInt8
  digestSize : Nat
  digest : Nat
  start : Nat
  length : Nat
  unknown : List UInt8
  digestSize_le : digestSize ≤ 4
  digest_lt : digest < 256 ^ digestSize
  start_lt : start < 2 ^ 32
  length_lt : length < 2 ^ 32
  /-- without an algorithm there is no digest -/
  none_empty : algorithm = digestNone → digestSize = 0

def BoardImage.wire (image : BoardImage) : List UInt8 :=
  image.algorithm :: UInt8.ofNat image.digestSize :: (encode image.digestSize image.digest ++
    (encode 4 image.start ++ (encode 4 image.length ++ image.unknown)))

def BoardImage.fields (image : BoardImage) : ImageFields where
  digestAlgorithm := image.algorithm.toNat
  digest := if image.digestSize = 0 then none else some image.digest
  imageStart := image.start
  imageLength := image.length

/-- What a board has to say, within the limits of the fields. -/
structure Board where
  storeState : UInt8
  transport : UInt8
  ledOrder : UInt8
  model : Str
  fwVersion : Str
  serial : Str
  flashUid : List UInt8
  image : Option BoardImage
  model_ascii : ∀ c ∈ model, c.toNat < 128
  fwVersion_ascii : ∀ c ∈ fwVersion, c.toNat < 128
  serial_ascii : ∀ c ∈ serial, c.toNat < 128
  model_le : model.length ≤ 13
  fwVersion_le : fwVersion.length ≤ 32
  serial_le : serial.length ≤ 33
  flashUid_length : flashUid.length = 8

def asciiBytes (text : Str) : List UInt8 := text.map fun c => UInt8.ofNat c.toNat

def textField (text : Str) : List UInt8 := UInt8.ofNat text.length :: asciiBytes text

def Board.wireImage (board : Board) : List UInt8 := (board.image.map BoardImage.wire).getD []

def Board.wire (board : Board) : List UInt8 :=
  [board.storeState, board.transport, board.ledOrder] ++ textField board.model ++
    textField board.fwVersion ++ textField board.serial ++ board.flashUid ++ board.wireImage

def Board.info (board : Board) (status : UInt8) : Info where
  protocol := 1
  provisioned := status = 0
  status := status.toNat
  storeState := board.storeState.toNat
  transport := board.transport.toNat
  ledOrder := board.ledOrder.toNat
  model := board.model
  fwVersion := board.fwVersion
  serial := board.serial
  flashUid := board.flashUid.flatMap fun b => upperHex 2 b.toNat
  image := board.image.map BoardImage.fields

section Parsing
variable {payload before bytes after : List UInt8} {offset maximum : Nat} {field : String}

theorem decodeAscii_asciiBytes {text : Str} (h : ∀ c ∈ text, c.toNat < 128) :
    decodeAscii (asciiBytes text) = .ok text := by
  have hbyte : ∀ c ∈ text, (UInt8.ofNat c.toNat).toNat = c.toNat := by
    intro c hc
    rw [UInt8.toNat_ofNat']
    exact Nat.mod_eq_of_lt ((h c hc).trans (by decide))
  have hall : (asciiBytes text).all (· < 0x80) = true := by
    rw [asciiBytes, List.all_map, List.all_eq_true]
    intro c hc
    have hlt : (UInt8.ofNat c.toNat).toNat < 128 := (hbyte c hc).trans_lt (h c hc)
    simpa [UInt8.lt_iff_toNat_lt] using hlt
  have htext : (asciiBytes text).map (fun b => Char.ofNat b.toNat) = text := by
    rw [asciiBytes, List.map_map]
    refine (List.map_congr_left fun c hc => ?_).trans text.map_id
    simp only [Function.comp, hbyte c hc, Char.ofNat_toNat, id]
  rw [decodeAscii, if_pos hall, htext]

theorem slice_of_split (h : payload = before ++ (bytes ++ after)) (hoffset : offset = before.length) :
    slice payload offset bytes.length = bytes := by
  have hright := slice_append_right before (bytes ++ after) 0 bytes.length
  rw [h, hoffset]
  rwa [Nat.add_zero, slice_append_left] at hright

theorem byteAt_of_split {b : UInt8} (h : payload = before ++ b :: after)
    (hoffset : offset = before.length) : byteAt payload offset = .ok b := by
  rw [byteAt, h, hoffset]
  simp

theorem slice_encode {n v : Nat} (h : payload = before ++ (encode n v ++ after))
    (hoffset : offset = before.length) : slice payload offset n = encode n v := by
  have hslice : slice payload offset (encode n v).length = encode n v := slice_of_split h hoffset
  rwa [length_encode] at hslice

theorem take_of_split (h : payload = before ++ UInt8.ofNat bytes.length :: (bytes ++ after))
    (hoffset : offset = before.length) (hmaximum : bytes.length ≤ maximum) (hbyte : maximum < 256) :
    take payload offset maximum field = .ok (bytes, offset + 1 + bytes.length) := by
  have hlength : payload.length = offset + 1 + bytes.length + after.length := by
    rw [h, hoffset]
    simp
    omega
  have hsize := toNat_ofNat_length (hmaximum.trans_lt hbyte)
  have hslice : slice payload (offset + 1) bytes.length = bytes := by
    have hnext : payload = (before ++ [UInt8.ofNat bytes.length]) ++ (bytes ++ after) := by
      rw [h, List.append_assoc]
      rfl
    exact slice_of_split hnext (by simp [hoffset])
  rw [take, if_neg (by omega), byteAt_of_split h hoffset, ok_bind, hsize]
  dsimp only
  rw [hslice, if_neg (by omega)]

theorem parseDigest_wire (image : BoardImage) (hoffset : offset = before.length)
    (h : payload = before ++ image.wire) : parseDigest payload offset = .ok (some image.fields) := by
  have hdigest : (encode image.digestSize image.digest).length = image.digestSize := length_encode _ _
  have hstart : (encode 4 image.start).length = 4 := length_encode _ _
  have hlength : (encode 4 image.length).length = 4 := length_encode _ _
  have htotal : payload.length = offset + 2 + image.digestSize + 8 + image.unknown.length := by
    rw [h, hoffset, List.length_append, BoardImage.wire]
    simp only [List.length_cons, List.length_append, hdigest, hstart, hlength]
    omega
  -- each field by the split of the payload before it
  have halgorithm := byteAt_of_split (b := image.algorithm) h hoffset
  have htake : take payload (offset + 1) 4 "digest" =
      .ok (encode image.digestSize image.digest, offset + 1 + 1 + image.digestSize) := by
    have hsplit : payload = (before ++ [image.algorithm]) ++
        UInt8.ofNat (encode image.digestSize image.digest).length ::
          (encode image.digestSize image.digest ++
            (encode 4 image.start ++ (encode 4 image.length ++ image.unknown))) := by
      rw [h, BoardImage.wire, hdigest, List.append_assoc]
      rfl
    rw [take_of_split hsplit (by simp [hoffset]) (hdigest.trans_le image.digestSize_le) (by decide),
      hdigest]
  have hsliceStart : slice payload (offset + 1 + 1 + image.digestSize) 4 = encode 4 image.start := by
    have hsplit : payload = (before ++ image.algorithm :: UInt8.ofNat image.digestSize ::
        encode image.digestSize image.digest) ++ (encode 4 image.start ++
          (encode 4 image.length ++ image.unknown)) := by
      rw [h, BoardImage.wire]
      simp
    exact slice_encode hsplit (by simp [hoffset]; omega)
  have hsliceLength : slice payload (offset + 1 + 1 + image.digestSize + 4) 4 =
      encode 4 image.length := by
    have hsplit : payload = (before ++ image.algorithm :: UInt8.ofNat image.digestSize ::
        (encode image.digestSize image.digest ++ encode 4 image.start)) ++
          (encode 4 image.length ++ image.unknown) := by
      rw [h, BoardImage.wire]
      simp
    exact slice_encode hsplit (by simp [hoffset]; omega)
  have hempty : encode image.digestSize image.digest = [] ↔ image.digestSize = 0 := by
    rw [← List.length_eq_zero_iff, hdigest]
  have hnone : ¬(image.algorithm = digestNone ∧ encode image.digestSize image.digest ≠ []) := by
    rintro ⟨halg, hne⟩
    exact hne (hempty.mpr (image.none_empty halg))
  rw [parseDigest, if_neg (by omega), halgorithm, ok_bind, htake, ok_bind]
  dsimp only
  rw [if_neg (by omega), if_neg hnone, hsliceStart, hsliceLength, decode_encode image.digest_lt,
    decode_encode image.start_lt, decode_encode image.length_lt]
  by_cases hsize : image.digestSize = 0
  · rw [if_neg (not_not.mpr (hempty.mpr hsize)), BoardImage.fields, if_pos hsize]
  · rw [if_pos (mt hempty.mp hsize), BoardImage.fields, if_neg hsize]

theorem length_asciiBytes (text : Str) : (asciiBytes text).length = text.length := List.length_map _

theorem take_textField {text : Str} (h : payload = before ++ (textField text ++ after))
    (hmaximum : text.length ≤ maximum) (hbyte : maximum < 256) :
    take payload before.length maximum field =
      .ok (asciiBytes text, (before ++ textField text).length) := by
  have hlength := length_asciiBytes text
  have hsplit : payload = before ++ UInt8.ofNat (asciiBytes text).length ::
      (asciiBytes text ++ after) := by
    rw [h, hlength]
    rfl
  rw [take_of_split hsplit rfl (hlength.trans_le hmaximum) hbyte, List.length_append, textField,
    List.length_cons]
  congr 2
  omega

theorem parseDigest_wireImage (board : Board) (hoffset : offset = before.length)
    (h : payload = before ++ board.wireImage) :
    parseDigest payload offset = .ok (board.image.map BoardImage.fields) := by
  cases himage : board.image with
  | none =>
    rw [Board.wireImage, himage] at h
    have hend : payload.length ≤ offset := by simp [h, hoffset]
    rw [parseDigest, if_pos hend]
    rfl
  | some image =>
    rw [Board.wireImage, himage] at h
    exact parseDigest_wire image hoffset h

theorem parseInfo_wire (board : Board) (status : UInt8) :
    parseInfo status board.wire = .ok (board.info status) := by
  obtain ⟨header, hheader⟩ : ∃ header, header = [board.storeState, board.transport, board.ledOrder] :=
    ⟨_, rfl⟩
  have hwire : board.wire = header ++ textField board.model ++ textField board.fwVersion ++
      textField board.serial ++ board.flashUid ++ board.wireImage := by rw [hheader]; rfl
  have hthree : header.length = 3 := by rw [hheader]; rfl
  have huid := board.flashUid_length
  have htake : board.wire.take 3 = [board.storeState, board.transport, board.ledOrder] := rfl
  -- the length of what is before a field is where it begins
  have hmodel : take board.wire 3 13 "model" =
      .ok (asciiBytes board.model, (header ++ textField board.model).length) := by
    rw [← hthree]
    exact take_textField (by simp only [hwire, List.append_assoc]; rfl) board.model_le (by decide)
  have hversion : take board.wire (header ++ textField board.model).length 32 "firmware version" =
      .ok (asciiBytes board.fwVersion,
        (header ++ textField board.model ++ textField board.fwVersion).length) :=
    take_textField (by simp only [hwire, List.append_assoc]; rfl) board.fwVersion_le (by decide)
  have hserial : take board.wire (header ++ textField board.model ++
      textField board.fwVersion).length 33 "serial" =
      .ok (asciiBytes board.serial, (header ++ textField board.model ++
        textField board.fwVersion ++ textField board.serial).length) :=
    take_textField (by simp only [hwire, List.append_assoc]; rfl) board.serial_le (by decide)
  generalize hbefore : header ++ textField board.model ++ textField board.fwVersion ++
    textField board.serial = before at hwire hserial
  have hslice : slice board.wire before.length 8 = board.flashUid := by
    rw [← huid]
    exact slice_of_split (by rw [hwire, List.append_assoc]) rfl
  have himage : parseDigest board.wire (before.length + 8) =
      .ok (board.image.map BoardImage.fields) := by
    refine parseDigest_wireImage board ?_ hwire
    rw [List.length_append, huid]
  have hlength : board.wire.length = before.length + 8 + board.wireImage.length := by
    rw [hwire, List.length_append, List.length_append, huid]
  have hbefore6 : 6 ≤ before.length := by
    rw [← hbefore]
    simp only [List.length_append, hthree, textField, List.length_cons]
    omega
  rw [parseInfo, if_neg (by omega), htake]
  dsimp only
  rw [ok_bind, hmodel, ok_bind, hversion, ok_bind, hserial, ok_bind]
  dsimp only
  rw [if_neg (by omega), hslice, himage, decodeAscii_asciiBytes board.model_ascii,
    decodeAscii_asciiBytes board.fwVersion_ascii, decodeAscii_asciiBytes board.serial_ascii]
  rfl

end Parsing

/-- What a board replies is read back as it is; whatever arrives, nothing else than `ProtocolError`
is raised; and a valid reply with a burst of errors outside its length byte is refused. -/
theorem info_replies_exact :
    (∀ (opcode status : UInt8) (board : Board) (rest : List UInt8),
      (status :: board.wire).length < 256 →
        readResponse readBytes opcode (reply opcode (status :: board.wire) ++ rest) =
          .ok ((status, board.wire), rest) ∧
        parseInfo status board.wire = .ok (board.info status)) ∧
    (∀ (σ : Type) (read : Nat → σ → List UInt8 × σ) (opcode : UInt8) (port : σ),
      OnlyProtocol (readResponse read opcode port)) ∧
    (∀ (status : UInt8) (payload : List UInt8), OnlyProtocol (parseInfo status payload)) ∧
    ∀ (opcode : UInt8) (frame altered rest : List UInt8) (result : UInt8 × List UInt8),
      readResponse readBytes opcode frame = .ok (result, []) →
      Burst 8 (frameBits frame) (frameBits altered) → altered[4]? = frame[4]? →
        ∃ message, readResponse readBytes opcode (altered ++ rest) =
          .error (.protocolError message) := by
  refine ⟨fun opcode status board rest h => ⟨readResponse_reply h, parseInfo_wire board status⟩,
    fun σ read opcode port => onlyProtocol_readResponse read opcode port, onlyProtocol_parseInfo, ?_⟩
  intro opcode frame altered rest result h hburst hsize
  exact refused_of_burst h hburst hsize rest

theorem ascii_of_all {text : Str} (h : text.all (fun c => decide (c.toNat < 128)) = true) :
    ∀ c ∈ text, c.toNat < 128 := by
  intro c hc
  exact of_decide_eq_true (List.all_eq_true.mp h c hc)

/-- A board with a digest, and with a field after it that is not known here. -/
def digestBoard : Board where
  storeState := 1
  transport := 1
  ledOrder := 1
  model := "roadrunner-v1".toList
  fwVersion := "dev".toList
  serial := []
  flashUid := [0x50, 0x54, 0x31, 0x65, 0x18, 0x7a, 0x4d, 0x1c]
  image := some {
    algorithm := 1
    digestSize := 4
    digest := 0xcbf43926
    start := 0x10000000
    length := 9
    unknown := [0xff]
    digestSize_le := by decide
    digest_lt := by decide
    start_lt := by decide
    length_lt := by decide
    none_empty := by decide }
  model_ascii := ascii_of_all (by decide)
  fwVersion_ascii := ascii_of_all (by decide)
  serial_ascii := ascii_of_all (by decide)
  model_le := by decide
  fwVersion_le := by decide
  serial_le := by decide
  flashUid_length := rfl

theorem info_replies_exact_digest : ∃ message,
    parseInfo 0 digestBoard.wire = .ok (digestBoard.info 0) ∧
    (digestBoard.info 0).flashUid = "50543165187A4D1C".toList ∧
    readResponse readBytes info ((reply info [0]).set 5 1) = .error (.protocolError message) := by
  refine ⟨"response CRC mismatch", ?_, by decide, by decide +kernel⟩
  exact (info_replies_exact.1 info 0 digestBoard [] (by decide +kernel)).2

end McuUpdater.RoadrunnerUsb
