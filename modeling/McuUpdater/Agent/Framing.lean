import McuUpdater.Agent.Reader
import McuUpdater.Lib.Except

/-! `agent/rpc.py`: a stream of frames, and what the reader makes of it however it is cut. -/
namespace McuUpdater.Agent
open PyText PyValue PyJson ExceptList

/-- `_read_loop`: the messages handed on from these chunks, and what stays in the buffer. -/
def readLoop (buffer : Bytes) : List Bytes → List Bytes × Bytes
  | [] => ([], buffer)
  -- the socket is closed
  | [] :: _ => ([], buffer)
  | chunk :: chunks =>
    let (out, buffer) := unframe (buffer ++ chunk)
    let (rest, buffer) := readLoop buffer chunks
    (out ++ rest, buffer)

variable {ft : FloatText} {limit : Nat} {fields : Fields} {texts : List Str} {text : Str}
  {msgs frames chunks : List Bytes} {got unread : Bytes}

theorem unframeFrom_message {msg : Bytes} (h : etx ∉ msg) (segment rest : Bytes) :
    unframeFrom segment (msg ++ etx :: rest) =
      (if isBlank (segment ++ msg) then (unframe rest).1 else (segment ++ msg) :: (unframe rest).1,
        (unframe rest).2) := by
  rw [unframeFrom_append_of_notMem h, unframeFrom, if_pos rfl]
  rfl

theorem unframeFrom_of_notMem (h : etx ∉ got) (segment : Bytes) :
    unframeFrom segment got = ([], segment ++ got) := by
  have hall := unframeFrom_append_of_notMem h segment []
  rw [List.append_nil] at hall
  rw [hall, unframeFrom]

/-- What is left in the buffer holds no end of text, so the chunks may be put together. -/
theorem readLoop_eq_unframe (hchunks : ∀ chunk ∈ chunks, chunk ≠ []) {buffer : Bytes}
    (hbuffer : etx ∉ buffer) : readLoop buffer chunks = unframe (buffer ++ chunks.flatten) := by
  induction chunks generalizing buffer with
  | nil => simp [readLoop, unframe, unframeFrom_of_notMem hbuffer]
  | cons chunk chunks ih =>
    rw [List.forall_mem_cons] at hchunks
    obtain ⟨b, chunk, rfl⟩ := List.exists_cons_of_ne_nil hchunks.1
    have htail : etx ∉ (unframe (buffer ++ b :: chunk)).2 := etx_notMem_unframeFrom (by simp) _
    have hcut : unframe ((unframe (buffer ++ b :: chunk)).2 ++ chunks.flatten) =
        unframeFrom (unframe (buffer ++ b :: chunk)).2 chunks.flatten := by
      rw [unframe, unframeFrom_append_of_notMem htail, List.nil_append]
    calc
      readLoop buffer ((b :: chunk) :: chunks)
          = ((unframe (buffer ++ b :: chunk)).1 ++
                (readLoop (unframe (buffer ++ b :: chunk)).2 chunks).1,
              (readLoop (unframe (buffer ++ b :: chunk)).2 chunks).2) := rfl
      _ = unframe (buffer ++ b :: chunk ++ chunks.flatten) := by
            rw [ih hchunks.2 htail, hcut, unframe, unframe, ← unframeFrom_append]
      _ = unframe (buffer ++ ((b :: chunk) :: chunks).flatten) := by
            rw [List.flatten_cons, List.append_assoc]

def framed (msg : Bytes) : Bytes := msg ++ [etx]

structure Delivered (msgs : List Bytes) (unread : Bytes) (out : List Bytes) (tail : Bytes) : Prop where
  whole : out <+: msgs
  rest : tail ++ unread = ((msgs.drop out.length).map framed).flatten
  /-- the tail is the start of the next frame, and not all of it -/
  partly : tail = [] ∨ ∃ next ∈ (msgs.drop out.length).head?, tail <+: framed next ∧ tail ≠ framed next

theorem Delivered.cons {msg : Bytes} {out : List Bytes} {tail : Bytes}
    (h : Delivered msgs unread out tail) : Delivered (msg :: msgs) unread (msg :: out) tail :=
  ⟨List.cons_prefix_cons.mpr ⟨rfl, h.whole⟩, h.rest, h.partly⟩

theorem Delivered.all {out : List Bytes} {tail : Bytes} (h : Delivered msgs [] out tail) :
    out = msgs ∧ tail = [] := by
  have hrest := h.rest
  rw [List.append_nil] at hrest
  have htail : tail = [] := by
    rcases h.partly with hnil | ⟨next, hnext, hpre, hne⟩
    · exact hnil
    · obtain ⟨later, hlater⟩ := List.head?_eq_some_iff.mp hnext
      rw [hlater, List.map_cons, List.flatten_cons] at hrest
      obtain ⟨more, hmore⟩ := hpre
      have hlen := congrArg List.length hrest
      have hlen' := congrArg List.length hmore
      rw [List.length_append] at hlen hlen'
      have hmore_nil : more = [] := List.length_eq_zero_iff.mp (by omega)
      rw [hmore_nil, List.append_nil] at hmore
      exact absurd hmore hne
  refine ⟨?_, htail⟩
  obtain ⟨more, rfl⟩ := h.whole
  rw [htail, List.drop_left] at hrest
  cases more with
  | nil => rw [List.append_nil]
  | cons next more => simp [framed] at hrest

theorem unframe_delivered (hclean : ∀ msg ∈ msgs, etx ∉ msg ∧ isBlank msg = false)
    (h : got ++ unread = (msgs.map framed).flatten) :
    Delivered msgs unread (unframe got).1 (unframe got).2 := by
  induction msgs generalizing got with
  | nil =>
    obtain ⟨rfl, rfl⟩ : got = [] ∧ unread = [] := by simpa using h
    exact ⟨List.prefix_rfl, rfl, .inl rfl⟩
  | cons msg msgs ih =>
    rw [List.forall_mem_cons] at hclean
    obtain ⟨⟨hetx, hblank⟩, hclean⟩ := hclean
    rw [List.map_cons, List.flatten_cons] at h
    have hwhole : ∀ more, got = framed msg ++ more → more ++ unread = (msgs.map framed).flatten →
        Delivered (msg :: msgs) unread (unframe got).1 (unframe got).2 := by
      intro more hgot hmore
      have hcut : unframe got = (msg :: (unframe more).1, (unframe more).2) := by
        rw [hgot, framed, List.append_assoc, List.singleton_append, unframe,
          unframeFrom_message hetx, List.nil_append, hblank]
        rfl
      rw [hcut]
      exact (ih hclean hmore).cons
    -- either the first frame ends in the bytes that came in, or these end in it
    rcases List.append_eq_append_iff.mp h with ⟨more, hframe, hunread⟩ | ⟨more, hgot, hmore⟩
    · cases hlast : more with
      | nil =>
        rw [hlast, List.append_nil] at hframe
        refine hwhole [] (by rw [List.append_nil, hframe]) ?_
        rw [List.nil_append, hunread, hlast, List.nil_append]
      | cons b rest =>
        have hgot : got <+: msg := by
          refine List.prefix_of_prefix_length_le ⟨more, hframe.symm⟩ ⟨[etx], rfl⟩ ?_
          have hlen := congrArg List.length hframe
          rw [hlast, framed, List.length_append, List.length_append] at hlen
          simp only [List.length_cons, List.length_nil] at hlen
          omega
        have hnone : etx ∉ got := fun hmem => hetx (hgot.subset hmem)
        rw [unframe, unframeFrom_of_notMem hnone, List.nil_append]
        refine ⟨List.nil_prefix, ?_, .inr ⟨msg, rfl, ⟨more, hframe.symm⟩, fun he => ?_⟩⟩
        · rw [h]
          rfl
        · have hlen := hgot.length_le
          rw [show got = framed msg from he] at hlen
          rw [framed, List.length_append, List.length_singleton] at hlen
          omega
    · exact hwhole more hgot hmore.symm

/-! ## Frames of JSON objects -/

theorem frame_ok (h : frame ft limit (.dict fields) = .ok got) :
    ∃ text, dumps ft limit (.dict fields) = .ok text ∧ framed (encode text) = got :=
  map_eq_ok h

theorem clean_of_dumps (h : dumps ft limit (.dict fields) = .ok text) :
    etx ∉ encode text ∧ isBlank (encode text) = false := by
  refine ⟨notMem_encode_of_allPrintable (allPrintable_dumps ft limit _ text h) (by decide), ?_⟩
  cases limit with
  | zero => cases h
  | succ limit =>
    obtain ⟨parts, -, rfl⟩ := map_eq_ok h
    have hbrace : encode [Char.ofNat 123] = [123] := by decide
    have henc : ∀ rest : Str, encode (Char.ofNat 123 :: rest) = 123 :: encode rest := fun rest => by
      rw [encode, List.flatMap_cons]
      exact congrArg (· ++ encode rest) (by simpa [encode] using hbrace)
    rw [List.cons_append, henc]
    rfl

theorem frames_of_payloads {payloads : List Fields}
    (h : payloads.mapM (fun fields => frame ft limit (.dict fields)) = .ok frames) :
    ∃ texts, payloads.mapM (fun fields => dumps ft limit (.dict fields)) = .ok texts ∧
      frames = (texts.map encode).map framed ∧
      ∀ msg ∈ texts.map encode, etx ∉ msg ∧ isBlank msg = false := by
  induction payloads generalizing frames with
  | nil =>
    cases h
    exact ⟨[], rfl, rfl, by simp⟩
  | cons fields payloads ih =>
    obtain ⟨first, rest, hfirst, hrest, rfl⟩ := mapM_cons_ok h
    obtain ⟨text, hdumps, rfl⟩ := frame_ok hfirst
    obtain ⟨texts, htexts, rfl, hclean⟩ := ih hrest
    refine ⟨text :: texts, ?_, rfl, ?_⟩
    · rw [List.mapM_cons, hdumps, htexts]
      rfl
    · rw [List.map_cons, List.forall_mem_cons]
      exact ⟨clean_of_dumps hdumps, hclean⟩

/-- However the stream of some payloads' frames is cut, the reader hands on the encodings of the
payloads that are there whole, in order and each once, and keeps what is there of the next. -/
theorem read_loop_delivers (ft : FloatText) (limit : Nat) (payloads : List Fields)
    (hframes : payloads.mapM (fun fields => frame ft limit (.dict fields)) = .ok frames)
    (hcut : chunks.flatten ++ unread = frames.flatten) (hchunks : ∀ chunk ∈ chunks, chunk ≠ []) :
    ∃ texts, payloads.mapM (fun fields => dumps ft limit (.dict fields)) = .ok texts ∧
      Delivered (texts.map encode) unread (readLoop [] chunks).1 (readLoop [] chunks).2 ∧
      (unread = [] → readLoop [] chunks = (texts.map encode, [])) := by
  obtain ⟨texts, htexts, rfl, hclean⟩ := frames_of_payloads hframes
  have hloop : readLoop [] chunks = unframe chunks.flatten :=
    readLoop_eq_unframe hchunks (by simp)
  have hdelivered := unframe_delivered hclean hcut
  rw [hloop]
  refine ⟨texts, htexts, hdelivered, fun hnil => ?_⟩
  rw [hnil] at hdelivered
  exact Prod.ext hdelivered.all.1 hdelivered.all.2

def twoPayloads : List Fields := [[(.str "m".toList, .str [Char.ofNat 3])], []]

/-- The frames of both payloads but for their last two bytes, cut inside the first. -/
def twoChunks : List Bytes :=
  [[123, 34, 109, 34], [58, 32, 34, 92, 117, 48, 48, 48, 51, 34, 125, 3, 123]]

theorem read_loop_delivers_two : ∃ texts,
    twoPayloads.mapM (fun fields => dumps ⟨fun _ _ => [], by simp⟩ 1 (.dict fields)) = .ok texts ∧
      Delivered (texts.map encode) [125, 3] (readLoop [] twoChunks).1 (readLoop [] twoChunks).2 ∧
      (readLoop [] twoChunks).2 = [123] := by
  obtain ⟨frames, hframes⟩ : ∃ frames, twoPayloads.mapM
      (fun fields => frame ⟨fun _ _ => [], by simp⟩ 1 (.dict fields)) = .ok frames := ⟨_, rfl⟩
  have hcut : twoChunks.flatten ++ [125, 3] = frames.flatten := by
    rw [← Except.ok.inj hframes]
    decide +kernel
  obtain ⟨texts, htexts, hdelivered, -⟩ :=
    read_loop_delivers _ 1 twoPayloads hframes hcut (by decide)
  exact ⟨texts, htexts, hdelivered, by decide +kernel⟩

end McuUpdater.Agent
