import McuUpdater.Lib.PyText
import McuUpdater.Lib.Transition

/-! `cfgsnapshot.py`: one parse of a file, shared until its stat key changes. Any number of
readers and writers, interleaved call by call. -/
namespace McuUpdater.Snapshot
open PyText Transition

structure Key where
  dev : Nat
  ino : Nat
  size : Nat
  mtime : Int
  ctime : Int
  deriving DecidableEq

structure File where
  dev : Nat
  ino : Nat
  content : Bytes
  mtime : Int
  ctime : Int

/-- `_stat_key` -/
def statKey (f : File) : Key where
  dev := f.dev
  ino := f.ino
  size := f.content.length
  mtime := f.mtime
  ctime := f.ctime

/-- `RACY_WINDOW_NS` -/
def racyWindow : Int := 2000000000

structure Entry (δ : Type*) where
  doc : δ
  key : Key

/-- How far a `read` has come. `fh` is the file its handle is open on. -/
inductive Phase (δ : Type*)
  | idle
  | calling
  /-- `open` found no file -/
  | absent
  | opened (fh : Nat)
  | keyed (fh : Nat) (before : Key)
  | missed (fh : Nat) (before : Key)
  /-- `fh.read()` has taken this much -/
  | started (fh : Nat) (before : Key) (since : Int) (got : Bytes)
  | parsed (fh : Nat) (before : Key) (since : Int) (doc : δ)
  | closed (before : Key) (since : Int) (doc : δ) (st : Key)

structure Reader (δ : Type*) where
  phase : Phase δ := .idle
  /-- what the path held since the call began; no field of the source -/
  during : List (Option Bytes) := []

structure World (δ : Type*) where
  now : Int
  /-- every file the path has named -/
  disk : List File
  path : Option Nat
  cache : Option (Entry δ) := none
  readers : List (Reader δ)
  /-- what the calls returned, and what the path held meanwhile -/
  returned : List (Option δ × List (Option Bytes)) := []

inductive Step
  | pass (d : Nat)
  /-- in place; `mtime` where it is put back -/
  | rewrite (content : Bytes) (mtime : Option Int)
  /-- by a file of this inode that is moved there -/
  | replace (dev ino : Nat) (content : Bytes) (mtime : Option Int)
  | remove
  /-- a writer's `invalidate` -/
  | invalidate
  | call (i : Nat)
  | advance (i : Nat)
  /-- its `fh.read()` takes some more -/
  | chunk (i n : Nat)
  /-- what it does next raises -/
  | fail (i : Nat)

section Model
variable {δ : Type*}

def Phase.handle : Phase δ → Option Nat
  | .opened fh | .keyed fh _ | .missed fh _ | .started fh _ _ _ | .parsed fh _ _ _ => some fh
  | _ => none

/-- What a read that is under way has taken of its file. -/
def Phase.got : Phase δ → Option Bytes
  | .started _ _ _ got => some got
  | _ => none

def World.current (w : World δ) : Option File := w.path.bind fun j => w.disk[j]?

def World.content (w : World δ) : Option Bytes := w.current.map File.content

/-- Linked, or open in a reader. -/
def World.InUse (w : World δ) (j : Nat) : Prop :=
  w.path = some j ∨ ∃ r ∈ w.readers, r.phase.handle = some j

instance (w : World δ) (j : Nat) : Decidable (w.InUse j) := inferInstanceAs (Decidable (_ ∨ _))

/-- No file that is linked or open has the inode. -/
def World.FreeInode (w : World δ) (dev ino : Nat) : Prop :=
  ∀ j < w.disk.length, w.InUse j → ∀ f ∈ w.disk[j]?, ¬ (f.dev = dev ∧ f.ino = ino)

instance (w : World δ) (dev ino : Nat) : Decidable (w.FreeInode dev ino) :=
  inferInstanceAs (Decidable (∀ j < w.disk.length, _))

def World.to (w : World δ) (i : Nat) (r : Reader δ) (phase : Phase δ) : World δ :=
  { w with readers := w.readers.set i { r with phase } }

def World.returns (w : World δ) (i : Nat) (r : Reader δ) (doc : Option δ) : World δ :=
  { w.to i r .idle with returned := (doc, r.during) :: w.returned }

def World.noticed (w : World δ) : World δ :=
  { w with readers := w.readers.map fun r => { r with during := w.content :: r.during } }

/-- A file's times come from a clock of this tick. -/
def stamp (tick : Nat) (w : World δ) : Int := tick * (w.now / tick)

def newFile (tick : Nat) (w : World δ) (dev ino : Nat) (content : Bytes) (mtime : Option Int) :
    File where
  dev := dev
  ino := ino
  content := content
  mtime := mtime.getD (stamp tick w)
  ctime := stamp tick w

variable (tick : Nat) (document : Bytes → Option δ)

/-- `read`, one call at a time. `document` decodes and parses, or raises. -/
def World.advance (w : World δ) (i : Nat) (r : Reader δ) : Option (World δ) :=
  match r.phase with
  | .idle => none
  | .calling =>
    match w.path with
    | none => some (w.to i r .absent)
    | some fh => some (w.to i r (.opened fh))
  | .absent => some (World.returns { w with cache := none } i r none)
  | .opened fh => w.disk[fh]?.map fun f => w.to i r (.keyed fh (statKey f))
  | .keyed fh before =>
    match w.cache with
    | none => some (w.to i r (.missed fh before))
    | some entry =>
      if entry.key = before then some (w.returns i r (some entry.doc))
      else some (w.to i r (.missed fh before))
  | .missed fh before => some (w.to i r (.started fh before w.now []))
  | .started fh before since got => w.disk[fh]?.map fun f =>
    match document (got ++ f.content.drop got.length) with
    | none => w.to i r .idle
    | some doc => w.to i r (.parsed fh before since doc)
  | .parsed fh before since doc =>
    w.disk[fh]?.map fun f => w.to i r (.closed before since doc (statKey f))
  | .closed before since doc st =>
    let trusted := st = before ∧ since - st.mtime > racyWindow
    some (World.returns { w with cache := if trusted then some ⟨doc, st⟩ else none } i r (some doc))

/-- A part of `fh.read()`, from where it is. -/
def World.chunk (w : World δ) (i n : Nat) (r : Reader δ) : Option (World δ) :=
  match r.phase with
  | .started fh before since got => w.disk[fh]?.map fun f =>
    w.to i r (.started fh before since (got ++ (f.content.drop got.length).take n))
  | _ => none

def step (w : World δ) : Step → Option (World δ)
  | .pass d => some { w with now := w.now + d }
  | .rewrite content mtime =>
    w.path.bind fun j => w.disk[j]?.map fun f =>
      { w with disk := w.disk.set j (newFile tick w f.dev f.ino content mtime) }.noticed
  | .replace dev ino content mtime =>
    if w.FreeInode dev ino then
      some (World.noticed
        { w with disk := w.disk ++ [newFile tick w dev ino content mtime]
                 path := some w.disk.length })
    else none
  | .remove => some { w with path := none }.noticed
  | .invalidate => some { w with cache := none }
  | .call i =>
    match w.readers[i]? with
    | some ⟨.idle, _⟩ =>
      some { w with readers := w.readers.set i { phase := .calling, during := [w.content] } }
    | _ => none
  | .advance i => w.readers[i]?.bind fun r => w.advance document i r
  | .chunk i n => w.readers[i]?.bind fun r => w.chunk i n r
  | .fail i => w.readers[i]?.map fun r => w.to i r .idle

/-- The parse that is about to be kept under this key, unless the key moves. -/
def Phase.pending : Phase δ → Option (Entry δ)
  | .parsed _ before since doc =>
    if since - before.mtime > racyWindow then some ⟨doc, before⟩ else none
  | .closed before since doc st =>
    if st = before ∧ since - st.mtime > racyWindow then some ⟨doc, st⟩ else none
  | _ => none

def World.parses (w : World δ) : List (Entry δ) :=
  w.cache.toList ++ w.readers.filterMap fun r => r.phase.pending

/-- A file that is written with an mtime outside the window has the key of no parse, kept or
about to be, of another content. -/
def Unlike (w : World δ) (f : File) : Prop :=
  f.mtime + racyWindow < w.now →
    ∀ p ∈ w.parses, p.key = statKey f → document f.content = some p.doc

/-- What the reads under way have taken of the file is in what is put in its place. -/
def Untorn (w : World δ) (content : Bytes) : Prop :=
  ∀ r ∈ w.readers, ∀ got, r.phase.got = some got → r.phase.handle = w.path → got <+: content

def Careful (w : World δ) : Step → Prop
  | .rewrite content mtime => Untorn w content ∧
    ∀ f, w.current = some f → Unlike document w (newFile tick w f.dev f.ino content mtime)
  | .replace dev ino content mtime => Unlike document w (newFile tick w dev ino content mtime)
  | _ => True

/-- A read returned the parse of what the path held at some time of the call. -/
def Returned (r : Option δ × List (Option Bytes)) : Prop :=
  ∃ content ∈ r.2, r.1 = content.bind document

structure Initial (w : World δ) : Prop where
  linked : ∀ j, w.path = some j → j < w.disk.length
  cache : w.cache = none
  readers : ∀ r ∈ w.readers, r.phase = .idle
  returned : w.returned = []

end Model

/-! What every careful run keeps. -/

section Invariant
variable {δ : Type*} (document : Bytes → Option δ)

/-- The path held a content of this parse while the call ran. -/
def Reader.Saw (r : Reader δ) (doc : δ) : Prop :=
  ∃ content ∈ r.during, content.bind document = some doc

/-- The key it took before the read, while its handle is open. -/
def Phase.before : Phase δ → Option Key
  | .keyed _ before | .missed _ before | .started _ before _ _ | .parsed _ before _ _ => some before
  | _ => none

def Phase.since : Phase δ → Option Int
  | .started _ _ since _ | .parsed _ _ since _ | .closed _ since _ _ => some since
  | _ => none

def Phase.doc : Phase δ → Option δ
  | .parsed _ _ _ doc | .closed _ _ doc _ => some doc
  | _ => none

/-- A reader that can still find a kept parse. -/
def Phase.Asks (disk : List File) (key : Key) : Phase δ → Prop
  | .opened fh => ∃ f, disk[fh]? = some f ∧ statKey f = key
  | .keyed _ before => before = key
  | _ => False

structure ReaderInv (w : World δ) (r : Reader δ) : Prop where
  current : r.phase ≠ .idle → w.content ∈ r.during
  absent : r.phase = .absent → none ∈ r.during
  handle : ∀ j, r.phase.handle = some j → ∃ f, w.disk[j]? = some f ∧ some f.content ∈ r.during ∧
    (∀ before, r.phase.before = some before → before.dev = f.dev ∧ before.ino = f.ino) ∧
    ∀ got, r.phase.got = some got → got <+: f.content
  clock : ∀ since, r.phase.since = some since → since ≤ w.now
  doc : ∀ doc, r.phase.doc = some doc → r.Saw document doc

/-- A parse under a key that the present file has is of its content, and one that a reader can
still find is of a content it has met. -/
structure Admitted (w : World δ) (p : Entry δ) : Prop where
  racy : p.key.mtime + racyWindow < w.now
  current : ∀ f, w.current = some f → statKey f = p.key → document f.content = some p.doc
  asks : ∀ r ∈ w.readers, r.phase.Asks w.disk p.key → r.Saw document p.doc

structure Inv (w : World δ) : Prop where
  linked : ∀ j, w.path = some j → j < w.disk.length
  apart : ∀ j k f g, w.InUse j → w.InUse k → w.disk[j]? = some f → w.disk[k]? = some g →
    f.dev = g.dev → f.ino = g.ino → j = k
  readers : ∀ r ∈ w.readers, ReaderInv document w r
  parses : ∀ p ∈ w.parses, Admitted document w p
  returned : ∀ r ∈ w.returned, Returned document r

variable {document} {tick : Nat} {w w' : World δ} {r : Reader δ} {i : Nat} {p : Entry δ}

theorem Reader.Saw.mono {r' : Reader δ} {doc : δ} (h : r.Saw document doc)
    (hsub : r.during ⊆ r'.during) : r'.Saw document doc := by
  obtain ⟨content, hmem, hdoc⟩ := h
  exact ⟨content, hsub hmem, hdoc⟩

theorem mem_parses : p ∈ w.parses ↔ w.cache = some p ∨
    ∃ r ∈ w.readers, r.phase.pending = some p := by
  simp [World.parses]

theorem World.current_eq {j : Nat} (h : w.path = some j) : w.current = w.disk[j]? := by
  rw [World.current, h, Option.bind_some]

theorem Unlike.of_mem {f : File} (h : Unlike document w f) (hinv : Inv document w)
    (hp : p ∈ w.parses) (hkey : statKey f = p.key) : document f.content = some p.doc := by
  have hracy := (hinv.parses p hp).racy
  rw [← hkey] at hracy
  exact h hracy p hp hkey.symm

/-! Writers. -/

theorem noticed_parses (w : World δ) : w.noticed.parses = w.parses := by
  simp [World.parses, World.noticed, List.filterMap_map]

theorem noticed_inUse (w : World δ) (j : Nat) : w.noticed.InUse j ↔ w.InUse j := by
  simp [World.InUse, World.noticed]

theorem mem_noticed {r' : Reader δ} (h : r' ∈ w.noticed.readers) :
    ∃ r ∈ w.readers, r' = { r with during := w.content :: r.during } := by
  obtain ⟨r, hr, rfl⟩ := List.mem_map.mp h
  exact ⟨r, hr, rfl⟩

theorem Inv.written {k : Nat} {f : File} (h : Inv document w) (hunlike : Unlike document w f)
    {disk : List File} (hk : disk[k]? = some f)
    (hother : ∀ j ≠ k, disk[j]? = w.disk[j]?)
    (hfree : ∀ j ≠ k, w.InUse j → ∀ g, w.disk[j]? = some g → ¬ (g.dev = f.dev ∧ g.ino = f.ino))
    (hsame : ∀ g, w.disk[k]? = some g → g.dev = f.dev ∧ g.ino = f.ino)
    (huntorn : ∀ r ∈ w.readers, ∀ got, r.phase.got = some got → r.phase.handle = some k →
      got <+: f.content) :
    Inv document { w with disk, path := some k }.noticed := by
  have hcontent : World.content { w with disk, path := some k } = some f.content := by
    simp [World.content, World.current, hk]
  have huse : ∀ j, World.InUse { w with disk, path := some k } j → j = k ∨ w.InUse j := by
    rintro j (hj | hj)
    · exact .inl (Option.some.inj hj).symm
    · exact .inr (.inr hj)
  refine ⟨?linked, ?apart, ?readers, ?parses, h.returned⟩
  case linked =>
    rintro j ⟨⟩
    exact (List.getElem?_eq_some_iff.mp hk).1
  case apart =>
    intro j l g g' hj hl hg hg' hdev hino
    simp only [noticed_inUse] at hj hl
    change disk[j]? = some g at hg
    change disk[l]? = some g' at hg'
    by_cases hjk : j = k
    · by_cases hlk : l = k
      · rw [hjk, hlk]
      · subst hjk
        obtain rfl : f = g := by simpa [hk] using hg
        rw [hother l hlk] at hg'
        exact absurd ⟨hdev.symm, hino.symm⟩
          (hfree l hlk ((huse l hl).resolve_left hlk) g' hg')
    · rw [hother j hjk] at hg
      have hjuse := (huse j hj).resolve_left hjk
      by_cases hlk : l = k
      · subst hlk
        obtain rfl : f = g' := by simpa [hk] using hg'
        exact absurd ⟨hdev, hino⟩ (hfree j hjk hjuse g hg)
      · rw [hother l hlk] at hg'
        exact h.apart j l g g' hjuse ((huse l hl).resolve_left hlk) hg hg' hdev hino
  case readers =>
    intro r' hr'
    obtain ⟨r, hr, rfl⟩ := mem_noticed hr'
    have hinv := h.readers r hr
    refine ⟨fun _ => List.mem_cons_self, fun ha => List.mem_cons_of_mem _ (hinv.absent ha), ?_,
      hinv.clock, fun doc hdoc => (hinv.doc doc hdoc).mono (List.subset_cons_self _ _)⟩
    intro j hj
    obtain ⟨g, hg, hmem, hbefore, hgot⟩ := hinv.handle j hj
    by_cases hjk : j = k
    · subst hjk
      refine ⟨f, hk, hcontent ▸ List.mem_cons_self, fun before hb => ?_,
        fun got hgot => huntorn r hr got hgot hj⟩
      obtain ⟨hdev, hino⟩ := hsame g hg
      exact hdev ▸ hino ▸ hbefore before hb
    · exact ⟨g, (hother j hjk).trans hg, List.mem_cons_of_mem _ hmem, hbefore, hgot⟩
  case parses =>
    intro p hp
    rw [noticed_parses] at hp
    have hadm := h.parses p hp
    refine ⟨hadm.racy, fun g hg hkey => ?_, fun r' hr' hasks => ?_⟩
    · obtain rfl : f = g := by
        have hcurrent : World.current { w with disk, path := some k } = some f := by
          simp [World.current, hk]
        exact Option.some.inj (hcurrent.symm.trans hg)
      exact hunlike.of_mem h hp hkey
    · obtain ⟨r, hr, rfl⟩ := mem_noticed hr'
      have hkept (hold : r.phase.Asks w.disk p.key) (content : Option Bytes) :
          Reader.Saw document { r with during := content :: r.during } p.doc :=
        (hadm.asks r hr hold).mono (List.subset_cons_self _ _)
      change r.phase.Asks disk p.key at hasks
      cases hphase : r.phase with
      | opened fh =>
        rw [hphase] at hasks
        obtain ⟨g, hg, hkey⟩ := hasks
        by_cases hfk : fh = k
        · subst hfk
          obtain rfl : f = g := Option.some.inj (hk.symm.trans hg)
          refine ⟨some f.content, hcontent ▸ List.mem_cons_self, ?_⟩
          exact hunlike.of_mem h hp hkey
        · exact hkept (by rw [hphase]; exact ⟨g, (hother fh hfk).symm.trans hg, hkey⟩) _
      | keyed fh before =>
        rw [hphase] at hasks
        exact hkept (by rw [hphase]; exact hasks) _
      | _ => simp [hphase, Phase.Asks] at hasks

theorem Inv.removed (h : Inv document w) : Inv document { w with path := none }.noticed := by
  refine ⟨nofun, ?_, ?_, ?_, h.returned⟩
  · intro j k f g hj hk
    rw [noticed_inUse] at hj hk
    exact h.apart j k f g (.inr (hj.resolve_left nofun)) (.inr (hk.resolve_left nofun))
  · intro r' hr'
    obtain ⟨r, hr, rfl⟩ := mem_noticed hr'
    have hinv := h.readers r hr
    refine ⟨fun _ => List.mem_cons_self, fun ha => List.mem_cons_of_mem _ (hinv.absent ha),
      fun j hj => ?_, hinv.clock, fun doc hdoc => (hinv.doc doc hdoc).mono (List.subset_cons_self _ _)⟩
    obtain ⟨g, hg, hmem, hbefore⟩ := hinv.handle j hj
    exact ⟨g, hg, List.mem_cons_of_mem _ hmem, hbefore⟩
  · intro p hp
    rw [noticed_parses] at hp
    have hadm := h.parses p hp
    refine ⟨hadm.racy, nofun, fun r' hr' hasks => ?_⟩
    obtain ⟨r, hr, rfl⟩ := mem_noticed hr'
    exact (hadm.asks r hr hasks).mono (List.subset_cons_self _ _)

/-! Readers. -/

theorem mem_set_readers {r' s : Reader δ} (h : s ∈ w.readers.set i r') : s ∈ w.readers ∨ s = r' :=
  List.mem_or_eq_of_mem_set h

theorem Inv.moves {r' : Reader δ} {cache : Option (Entry δ)}
    {returned : List (Option δ × List (Option Bytes))} (h : Inv document w)
    (hr' : ReaderInv document w r')
    (huse : ∀ j, r'.phase.handle = some j → w.InUse j)
    (hasks : ∀ p, Admitted document w p → r'.phase.Asks w.disk p.key → r'.Saw document p.doc)
    (hpending : ∀ p, r'.phase.pending = some p → p ∈ w.parses ∨ Admitted document w p)
    (hcache : ∀ p, cache = some p → p ∈ w.parses)
    (hreturned : ∀ e ∈ returned, Returned document e) :
    Inv document { w with readers := w.readers.set i r', cache, returned } := by
  have hinuse : ∀ j, World.InUse { w with readers := w.readers.set i r', cache, returned } j →
      w.InUse j := by
    rintro j (hj | ⟨s, hs, hj⟩)
    · exact .inl hj
    · rcases mem_set_readers hs with hs | rfl
      · exact .inr ⟨s, hs, hj⟩
      · exact huse j hj
  refine ⟨h.linked, fun j k f g hj hk => h.apart j k f g (hinuse j hj) (hinuse k hk), ?_, ?_,
    hreturned⟩
  · intro s hs
    rcases mem_set_readers hs with hs | rfl
    · obtain ⟨a, b, c, d, e⟩ := h.readers s hs
      exact ⟨a, b, c, d, e⟩
    · obtain ⟨a, b, c, d, e⟩ := hr'
      exact ⟨a, b, c, d, e⟩
  · intro p hp
    have hadm : Admitted document w p := by
      rcases mem_parses.mp hp with hkept | ⟨s, hs, hs'⟩
      · exact h.parses p (hcache p hkept)
      · rcases mem_set_readers hs with hs | rfl
        · exact h.parses p (mem_parses.mpr (.inr ⟨s, hs, hs'⟩))
        · exact (hpending p hs').elim (h.parses p) id
    refine ⟨hadm.racy, hadm.current, fun s hs ha => ?_⟩
    rcases mem_set_readers hs with hs | rfl
    · exact hadm.asks s hs ha
    · exact hasks p hadm ha

theorem Inv.to {phase : Phase δ} (h : Inv document w)
    (hr' : ReaderInv document w { r with phase })
    (huse : ∀ j, phase.handle = some j → w.InUse j)
    (hasks : ∀ p, Admitted document w p → phase.Asks w.disk p.key → r.Saw document p.doc)
    (hpending : ∀ p, phase.pending = some p → p ∈ w.parses ∨ Admitted document w p) :
    Inv document (w.to i r phase) :=
  h.moves hr' huse hasks hpending (fun _ hp => mem_parses.mpr (.inl hp)) h.returned

theorem Inv.returns {cache : Option (Entry δ)} {doc : Option δ} (h : Inv document w)
    (hcache : ∀ p, cache = some p → p ∈ w.parses) (hdoc : Returned document (doc, r.during)) :
    Inv document (World.returns { w with cache } i r doc) := by
  have hidle : ReaderInv document w { r with phase := .idle } := ⟨nofun, nofun, nofun, nofun, nofun⟩
  refine h.moves hidle nofun nofun nofun hcache fun e he => ?_
  rcases List.mem_cons.mp he with rfl | he
  · exact hdoc
  · exact h.returned e he

theorem Inv.admits {fh : Nat} {f : File} (h : Inv document w) (hr : r ∈ w.readers)
    (hfh : r.phase.handle = some fh) (hbefore : r.phase.before = some p.key)
    (hf : w.disk[fh]? = some f) (hdoc : document f.content = some p.doc)
    (hracy : p.key.mtime + racyWindow < w.now) : Admitted document w p := by
  have huse : w.InUse fh := .inr ⟨r, hr, hfh⟩
  obtain ⟨f', hf', -, hident, -⟩ := (h.readers r hr).handle fh hfh
  obtain rfl : f' = f := Option.some.inj (hf'.symm.trans hf)
  obtain ⟨hdev, hino⟩ := hident p.key hbefore
  refine ⟨hracy, fun g hg hkey => ?_, fun s hs hasks => ?_⟩
  · obtain ⟨j, hj, hg'⟩ := Option.bind_eq_some_iff.mp hg
    have hsame : j = fh := h.apart j fh g f' (.inl hj) huse hg' hf
      ((congrArg Key.dev hkey).trans hdev) ((congrArg Key.ino hkey).trans hino)
    subst hsame
    obtain rfl : f' = g := Option.some.inj (hf.symm.trans hg')
    exact hdoc
  · obtain ⟨j, g, hj, hg, hmem, hident'⟩ : ∃ j g, s.phase.handle = some j ∧ w.disk[j]? = some g ∧
        some g.content ∈ s.during ∧ g.dev = p.key.dev ∧ g.ino = p.key.ino := by
      cases hphase : s.phase with
      | opened j =>
        obtain ⟨g, hg, hmem, -⟩ := (h.readers s hs).handle j (by rw [hphase]; rfl)
        rw [hphase] at hasks
        obtain ⟨g', hg', hkey⟩ := hasks
        obtain rfl : g = g' := Option.some.inj (hg.symm.trans hg')
        exact ⟨j, g, rfl, hg, hmem, congrArg Key.dev hkey, congrArg Key.ino hkey⟩
      | keyed j before =>
        obtain ⟨g, hg, hmem, hb, -⟩ := (h.readers s hs).handle j (by rw [hphase]; rfl)
        obtain ⟨hd, hi⟩ := hb before (by rw [hphase]; rfl)
        rw [hphase] at hasks
        obtain rfl : before = p.key := hasks
        exact ⟨j, g, rfl, hg, hmem, hd.symm, hi.symm⟩
      | _ => simp [hphase, Phase.Asks] at hasks
    have hsame : j = fh := h.apart j fh g f' (.inr ⟨s, hs, hj⟩) huse hg hf
      (hident'.1.trans hdev) (hident'.2.trans hino)
    subst hsame
    obtain rfl : f' = g := Option.some.inj (hf.symm.trans hg)
    exact ⟨some f'.content, hmem, hdoc⟩

theorem prefix_append_drop {got content : Bytes} (h : got <+: content) :
    got ++ content.drop got.length = content := by
  obtain ⟨rest, rfl⟩ := h
  rw [List.drop_left]

theorem Inv.advance (h : Inv document w) (hr : w.readers[i]? = some r)
    (hs : w.advance document i r = some w') : Inv document w' := by
  have hmem : r ∈ w.readers := List.mem_of_getElem? hr
  obtain ⟨hcurrent, habsent, hhandle, hclock, hdoc⟩ := h.readers r hmem
  have hin (p : Entry δ) (hp : r.phase.pending = some p) : p ∈ w.parses :=
    mem_parses.mpr (.inr ⟨r, hmem, hp⟩)
  rw [World.advance] at hs
  cases hphase : r.phase with
  | idle => simp [hphase] at hs
  | calling =>
    simp only [hphase] at hs
    have hheld : w.content ∈ r.during := hcurrent (by rw [hphase]; nofun)
    cases hpath : w.path with
    | none =>
      simp only [hpath, Option.some.injEq] at hs
      subst hs
      have hnone : none ∈ r.during := by
        simpa [World.content, World.current, hpath] using hheld
      exact h.to ⟨fun _ => hheld, fun _ => hnone, nofun, nofun, nofun⟩ nofun nofun nofun
    | some fh =>
      simp only [hpath, Option.some.injEq] at hs
      subst hs
      obtain ⟨f, hf⟩ : ∃ f, w.disk[fh]? = some f := ⟨_, List.getElem?_eq_getElem (h.linked fh hpath)⟩
      have hcur : w.current = some f := (World.current_eq hpath).trans hf
      have hheld' : some f.content ∈ r.during := by
        simpa [World.content, hcur] using hheld
      refine h.to ⟨fun _ => hheld, nofun, ?_, nofun, nofun⟩ ?_ ?_ nofun
      · rintro j ⟨⟩
        exact ⟨f, hf, hheld', nofun, nofun⟩
      · rintro j ⟨⟩
        exact .inl hpath
      · rintro p hadm ⟨g, hg, hkey⟩
        obtain rfl : f = g := Option.some.inj (hf.symm.trans hg)
        exact ⟨some f.content, hheld', hadm.current f hcur hkey⟩
  | absent =>
    simp only [hphase, Option.some.injEq] at hs
    subst hs
    exact h.returns nofun ⟨none, habsent hphase, rfl⟩
  | opened fh =>
    simp only [hphase] at hs
    obtain ⟨f, hf, rfl⟩ := Option.map_eq_some_iff.mp hs
    obtain ⟨f', hf', hheld, -⟩ := hhandle fh (by rw [hphase]; rfl)
    obtain rfl : f' = f := Option.some.inj (hf'.symm.trans hf)
    refine h.to ⟨fun _ => hcurrent (by rw [hphase]; nofun), nofun, ?_, nofun, nofun⟩ ?_ ?_ nofun
    · rintro j ⟨⟩
      refine ⟨f', hf, hheld, ?_, nofun⟩
      rintro before ⟨⟩
      exact ⟨rfl, rfl⟩
    · rintro j ⟨⟩
      exact .inr ⟨r, hmem, by rw [hphase]; rfl⟩
    · rintro p hadm hkey
      exact hadm.asks r hmem (by rw [hphase]; exact ⟨f', hf, hkey⟩)
  | keyed fh before =>
    simp only [hphase] at hs
    have hmissed : Inv document (w.to i r (.missed fh before)) := by
      refine h.to ⟨fun _ => hcurrent (by rw [hphase]; nofun), nofun, ?_, nofun, nofun⟩ ?_ nofun nofun
      · rintro j ⟨⟩
        simpa [hphase, Phase.handle, Phase.before, Phase.got] using hhandle fh
      · rintro j ⟨⟩
        exact .inr ⟨r, hmem, by rw [hphase]; rfl⟩
    cases hcache : w.cache with
    | none =>
      simp only [hcache, Option.some.injEq] at hs
      exact hs ▸ hmissed
    | some entry =>
      simp only [hcache] at hs
      split_ifs at hs with hkey
      · obtain rfl := Option.some.inj hs
        have hadm := h.parses entry (mem_parses.mpr (.inl hcache))
        obtain ⟨content, hc, hd⟩ := hadm.asks r hmem (by rw [hphase]; exact hkey.symm)
        exact h.returns (fun p hp => mem_parses.mpr (.inl hp)) ⟨content, hc, hd.symm⟩
      · exact Option.some.inj hs ▸ hmissed
  | missed fh before =>
    simp only [hphase, Option.some.injEq] at hs
    subst hs
    refine h.to ⟨fun _ => hcurrent (by rw [hphase]; nofun), nofun, ?_, ?_, nofun⟩ ?_ nofun nofun
    · rintro j ⟨⟩
      simpa [hphase, Phase.handle, Phase.before, Phase.got] using hhandle fh
    · rintro since ⟨⟩
      exact Int.le_refl w.now
    · rintro j ⟨⟩
      exact .inr ⟨r, hmem, by rw [hphase]; rfl⟩
  | started fh before since got =>
    simp only [hphase] at hs
    obtain ⟨f, hf, rfl⟩ := Option.map_eq_some_iff.mp hs
    obtain ⟨f', hf', hheld, -, hgot⟩ := hhandle fh (by rw [hphase]; rfl)
    obtain rfl : f' = f := Option.some.inj (hf'.symm.trans hf)
    -- no rewrite has torn what was taken from what is left
    rw [prefix_append_drop (hgot got (by rw [hphase]; rfl))]
    cases hparse : document f'.content with
    | none => exact h.to ⟨nofun, nofun, nofun, nofun, nofun⟩ nofun nofun nofun
    | some doc =>
      have hsince : since ≤ w.now := hclock since (by rw [hphase]; rfl)
      refine h.to ⟨fun _ => hcurrent (by rw [hphase]; nofun), nofun, ?_, ?_, ?_⟩ ?_ nofun ?_
      · rintro j ⟨⟩
        obtain ⟨g, hg, hmem, hbefore, -⟩ := hhandle fh (by rw [hphase]; rfl)
        exact ⟨g, hg, hmem, by simpa [hphase, Phase.before] using hbefore, nofun⟩
      · rintro since' ⟨⟩
        exact hsince
      · rintro doc' ⟨⟩
        exact ⟨some f'.content, hheld, hparse⟩
      · rintro j ⟨⟩
        exact .inr ⟨r, hmem, by rw [hphase]; rfl⟩
      · intro p hp
        simp only [Phase.pending] at hp
        split_ifs at hp with hracy
        cases hp
        exact .inr (h.admits hmem (by rw [hphase]; rfl) (by rw [hphase]; rfl) hf hparse
          (by simp only; omega))
  | parsed fh before since doc =>
    simp only [hphase] at hs
    obtain ⟨f, hf, rfl⟩ := Option.map_eq_some_iff.mp hs
    refine h.to ⟨fun _ => hcurrent (by rw [hphase]; nofun), nofun, nofun, ?_, ?_⟩ nofun nofun ?_
    · rintro since' ⟨⟩
      exact hclock since (by rw [hphase]; rfl)
    · rintro doc' ⟨⟩
      exact hdoc doc (by rw [hphase]; rfl)
    · intro p hp
      simp only [Phase.pending] at hp
      split_ifs at hp with htrusted
      obtain ⟨hsame, hracy⟩ := htrusted
      cases hp
      refine .inl (hin _ ?_)
      rw [hphase, Phase.pending, hsame, if_pos (hsame ▸ hracy)]
  | closed before since doc st =>
    simp only [hphase, Option.some.injEq] at hs
    subst hs
    refine h.returns (fun p hp => hin p ?_) ?_
    · rw [hphase, Phase.pending]
      exact hp
    · obtain ⟨content, hc, hd⟩ := hdoc doc (by rw [hphase]; rfl)
      exact ⟨content, hc, hd.symm⟩

theorem Inv.chunk {n : Nat} (h : Inv document w) (hr : w.readers[i]? = some r)
    (hs : w.chunk i n r = some w') : Inv document w' := by
  have hmem : r ∈ w.readers := List.mem_of_getElem? hr
  obtain ⟨hcurrent, -, hhandle, hclock, -⟩ := h.readers r hmem
  rw [World.chunk] at hs
  cases hphase : r.phase with
  | started fh before since got =>
    simp only [hphase] at hs
    obtain ⟨f, hf, rfl⟩ := Option.map_eq_some_iff.mp hs
    obtain ⟨f', hf', hheld, hident, hgot⟩ := hhandle fh (by rw [hphase]; rfl)
    obtain rfl : f' = f := Option.some.inj (hf'.symm.trans hf)
    refine h.to ⟨fun _ => hcurrent (by rw [hphase]; nofun), nofun, ?_, ?_, nofun⟩ ?_ nofun nofun
    · rintro j ⟨⟩
      refine ⟨f', hf, hheld, by simpa [hphase, Phase.before] using hident, ?_⟩
      rintro taken ⟨⟩
      have hprefix := hgot got (by rw [hphase]; rfl)
      conv_rhs => rw [← prefix_append_drop hprefix]
      exact (List.prefix_append_right_inj got).mpr (List.take_prefix n _)
    · rintro since' ⟨⟩
      exact hclock since (by rw [hphase]; rfl)
    · rintro j ⟨⟩
      exact .inr ⟨r, hmem, by rw [hphase]; rfl⟩
  | _ => simp [hphase] at hs

theorem Inv.start (h : Initial w) : Inv document w where
  linked := h.linked
  apart := by
    have huse : ∀ j, w.InUse j → w.path = some j := by
      rintro j (hj | ⟨r, hr, hj⟩)
      · exact hj
      · simp [h.readers r hr, Phase.handle] at hj
    intro j k f g hj hk _ _ _ _
    exact Option.some.inj ((huse j hj).symm.trans (huse k hk))
  readers := by
    rintro ⟨phase, during⟩ hr
    obtain rfl : phase = .idle := h.readers _ hr
    exact ⟨nofun, nofun, nofun, nofun, nofun⟩
  parses := by
    intro p hp
    rcases mem_parses.mp hp with hp | ⟨r, hr, hp⟩
    · rw [h.cache] at hp
      cases hp
    · simp [h.readers r hr, Phase.pending] at hp
  returned := by
    rw [h.returned]
    exact nofun

theorem Inv.called (h : Inv document w) : Inv document
    { w with readers := w.readers.set i { phase := .calling, during := [w.content] } } :=
  h.moves ⟨fun _ => List.mem_singleton_self _, nofun, nofun, nofun, nofun⟩ nofun nofun nofun
    (fun _ hp => mem_parses.mpr (.inl hp)) h.returned

theorem Inv.failed {i : Nat} {r : Reader δ} (h : Inv document w) :
    Inv document (w.to i r .idle) :=
  h.to ⟨nofun, nofun, nofun, nofun, nofun⟩ nofun nofun nofun

theorem Inv.invalidated (h : Inv document w) : Inv document { w with cache := none } := by
  refine ⟨h.linked, h.apart, fun r hr => ?_, fun p hp => ?_, h.returned⟩
  · obtain ⟨hcurrent, habsent, hhandle, hclock, hdoc⟩ := h.readers r hr
    exact ⟨hcurrent, habsent, hhandle, hclock, hdoc⟩
  · have hold : p ∈ w.parses := mem_parses.mpr (.inr ((mem_parses.mp hp).resolve_left nofun))
    obtain ⟨hracy, hcurrent, hasks⟩ := h.parses p hold
    exact ⟨hracy, hcurrent, hasks⟩

theorem Inv.handle_lt (h : Inv document w) {j : Nat} (hj : w.InUse j) : j < w.disk.length := by
  rcases hj with hj | ⟨r, hr, hj⟩
  · exact h.linked j hj
  · obtain ⟨f, hf, -⟩ := (h.readers r hr).handle j hj
    exact (List.getElem?_eq_some_iff.mp hf).1

theorem Inv.step {a : Step} (h : Inv document w) (hc : Careful tick document w a)
    (hs : step tick document w a = some w') : Inv document w' := by
  cases a with
  | pass d =>
    cases hs
    refine ⟨h.linked, h.apart, fun r hr => ?_, fun p hp => ?_, h.returned⟩
    · obtain ⟨hcurrent, habsent, hhandle, hclock, hdoc⟩ := h.readers r hr
      refine ⟨hcurrent, habsent, hhandle, fun since hsince => ?_, hdoc⟩
      have := hclock since hsince
      simp only
      omega
    · obtain ⟨hracy, hcurrent, hasks⟩ := h.parses p hp
      refine ⟨?_, hcurrent, hasks⟩
      simp only
      omega
  | rewrite content mtime =>
    obtain ⟨j, hj, hs⟩ := Option.bind_eq_some_iff.mp hs
    obtain ⟨f, hf, rfl⟩ := Option.map_eq_some_iff.mp hs
    have hlt : j < w.disk.length := h.linked j hj
    have hunlike := hc.2 f ((World.current_eq hj).trans hf)
    have hset : (w.disk.set j (newFile tick w f.dev f.ino content mtime))[j]? =
        some (newFile tick w f.dev f.ino content mtime) := by simp [hlt]
    have hw := h.written hunlike hset (fun l hl => by simp [List.getElem?_set_ne hl.symm])
      (fun l hl huse g hg hident => hl (h.apart l j g f huse (.inl hj) hg hf hident.1 hident.2))
      (fun g hg => by
        obtain rfl : f = g := Option.some.inj (hf.symm.trans hg)
        exact ⟨rfl, rfl⟩)
      fun r hr got hgot hfile => hc.1 r hr got hgot (hfile.trans hj.symm)
    rwa [← hj] at hw
  | replace dev ino content mtime =>
    simp only [Snapshot.step] at hs
    split_ifs at hs with hfree
    cases hs
    refine h.written hc (by simp) (fun l hl => ?_) (fun l hl huse g hg hident => ?_) (fun g hg => ?_)
      fun r hr got _ hfile => ?_
    · rcases Nat.lt_or_gt_of_ne hl with hlt | hgt
      · exact List.getElem?_append_left hlt
      · rw [List.getElem?_eq_none (by simp; omega), List.getElem?_eq_none (by omega)]
    · exact hfree l (h.handle_lt huse) huse g hg hident
    · simp at hg
    · exact absurd (h.handle_lt (.inr ⟨r, hr, hfile⟩)) (Nat.lt_irrefl _)
  | remove =>
    cases hs
    exact h.removed
  | invalidate =>
    cases hs
    exact h.invalidated
  | call i =>
    simp only [Snapshot.step] at hs
    split at hs
    · cases hs
      exact h.called
    · cases hs
  | advance i =>
    obtain ⟨r, hr, hs⟩ := Option.bind_eq_some_iff.mp hs
    exact h.advance hr hs
  | chunk i n =>
    obtain ⟨r, hr, hs⟩ := Option.bind_eq_some_iff.mp hs
    exact h.chunk hr hs
  | fail i =>
    obtain ⟨r, hr, rfl⟩ := Option.map_eq_some_iff.mp hs
    exact h.failed

/-- Times of a tick no longer than the window are no risk, where none is put back. -/
theorem stamped_careful (htick : 0 < tick) (hwindow : (tick : Int) ≤ racyWindow) {f : File}
    (hf : f.mtime = stamp tick w) : Unlike document w f := by
  intro hold
  have htick' : (0 : Int) < tick := by exact_mod_cast htick
  have hsplit := Int.emod_add_mul_ediv w.now tick
  have hlt := Int.emod_lt_of_pos w.now htick'
  rw [hf, stamp] at hold
  omega

/-- No read is stale. -/
theorem reads_never_stale {tick : Nat} {document : Bytes → Option δ} {w : World δ}
    (h : Reach (step tick document) (Careful tick document) Initial w) :
    ∀ r ∈ w.returned, Returned document r :=
  (h.invariant (fun _ => Inv.start) fun _ _ _ hinv hc hs => hinv.step hc hs).returned

end Invariant

def oneReader : World Bytes where
  now := 20000000000
  disk := [{ dev := 1, ino := 7, content := [64], mtime := 10000000000, ctime := 10000000000 }]
  path := some 0
  readers := [{}]

def parsing : List Step := .call 0 :: List.replicate 7 (.advance 0)

def hitting : List Step := .call 0 :: List.replicate 3 (.advance 0)

theorem oneReader_initial : Initial oneReader where
  linked := by
    rintro j ⟨⟩
    decide
  cache := rfl
  readers := by simp [oneReader]
  returned := rfl

def rewritten : List Step := parsing ++ hitting ++ [.rewrite [65] none] ++ parsing

/-- A rewrite with the clock's own mtime while nothing is being read. -/
def calm (w : World Bytes) : Step → Bool
  | .rewrite _ mtime => mtime.isNone && w.readers.all (·.phase.got.isNone)
  | .replace _ _ _ _ => false
  | _ => true

theorem careful_of_calm (w : World Bytes) (a : Step) (h : calm w a = true) :
    Careful 4000000 some w a := by
  cases a with
  | rewrite content mtime =>
    simp only [calm, Bool.and_eq_true, List.all_eq_true, Option.isNone_iff_eq_none] at h
    obtain ⟨rfl, hidle⟩ := h
    refine ⟨fun r hr got hgot => ?_, fun f _ => stamped_careful (by decide) (by decide) rfl⟩
    rw [hidle r hr] at hgot
    cases hgot
  | replace dev ino content mtime => cases h
  | _ => trivial

/-- A parse is kept and found, the file is rewritten, and the next read parses it again. -/
theorem reads_never_stale_rewritten :
    ∃ w, run (step 4000000 some) rewritten oneReader = some w ∧
      w.returned.map Prod.fst = [some [65], some [64], some [64]] ∧
      ∀ r ∈ w.returned, Returned some r :=
  ⟨_, rfl, rfl, reads_never_stale
    (Reach.extend_checked (l := rewritten) (.start oneReader_initial) careful_of_calm rfl)⟩

/-- One reader, and a file of two bytes. -/
def twoBytes : World Bytes where
  now := 20000000000
  disk := [{ dev := 1, ino := 7, content := [64, 64], mtime := 10000000000, ctime := 10000000000 }]
  path := some 0
  readers := [{}]

/-- Two rewrites of one size in one tick, each with the old mtime put back, and a read between
them: the next read returns what that read kept. And a rewrite between two parts of one read:
what is returned the path held at no time. -/
theorem reads_stale_or_torn :
    (∃ w, run (step 4000000 some)
        (.rewrite [65] (some 10000000000) :: parsing ++ .rewrite [66] (some 10000000000) :: hitting)
        oneReader = some w ∧
      w.content = some [66] ∧ w.returned.head? = some (some [65], [some [66]]) ∧
      ¬ ∀ r ∈ w.returned, Returned some r) ∧
    ∃ w, run (step 4000000 some)
        (.call 0 :: List.replicate 4 (.advance 0) ++
          .chunk 0 1 :: .rewrite [66, 66] none :: List.replicate 3 (.advance 0)) twoBytes = some w ∧
      w.returned = [(some [64, 66], [some [66, 66], some [64, 64]])] := by
  refine ⟨⟨_, rfl, rfl, rfl, fun h => ?_⟩, _, rfl, rfl⟩
  obtain ⟨content, hmem, heq⟩ := h (some [65], [some [66]]) List.mem_cons_self
  rw [List.mem_singleton] at hmem
  simp [hmem] at heq

end McuUpdater.Snapshot
