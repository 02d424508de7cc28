import McuUpdater.Kconfig.Session

/-! `providers/kconfig.py`: from the id of a row back to the entry the row was made of. -/
namespace McuUpdater.Kconfig
open PyText

section Handles
variable {L : Library} {session : Session L} {n m : MenuNode}

def Session.menuNodes (session : Session L) : List MenuNode :=
  (collect L session.kconf (some session.current.entry) 0 session.current.list).map Prod.fst

/-- A session as requests make it of a tree just parsed. -/
inductive Opened : Session L → Prop
  | parsed (top : MenuNode) (kconf : L.State) (dirty : Bool) (revision : Nat) :
    Opened { top, kconf, dirty, revision }
  | enter {session after : Session L} {id : Str} (h : Opened session)
    (he : session.enter id = .ok after) : Opened after
  | up {session : Session L} (h : Opened session) : Opened session.up
  | setValue {session : Session L} (int : Nat → Str → Option Int) (id text : Str)
    (h : Opened session) : Opened (session.setValue int id text).2

/-- What the id of a row is promised to lead to: the entry itself, or for a symbol a visible node
of it; entering it opens its own submenu, and setting it assigns it. -/
structure Leads (session : Session L) (n : MenuNode) : Prop where
  found : ∃ m, session.find (nodeId n) = .ok m ∧
    (if n.entry.item.isSymbol then m.entry.item = n.entry.item ∧ visible L session.kconf m = true
      else m = n) ∧
    ∀ int wanted, setNode int session m (nodeId n) wanted = setNode int session n (nodeId n) wanted
  entered : enterable n = true →
    session.enter (nodeId n) = .ok { session with below := session.below ++ [n] }

/-- The entries a walk of the tree meets first. -/
def Session.before (session : Session L) (n : MenuNode) : List MenuNode :=
  session.nodes.takeWhile fun m => m ≠ n

/-- What an entry is known by: its name, or its place in the sources. -/
inductive Origin
  | named (name : Str)
  | unnamed (base : Str) (line : Nat) (prompt : Str)
  deriving DecidableEq

def Entry.origin (entry : Entry) : Origin :=
  let unnamed := .unnamed (basename entry.filename) entry.linenr (entry.prompt.getD [])
  match entry.item.name with
  | some name => if name = [] then unnamed else .named name
  | none => unnamed

def Origin.text : Origin → Str
  | .named name => name
  | .unnamed base line prompt => unnamedId base line prompt

/-- A name that no place looks like, and a place that is read one way only. -/
def Origin.Plain : Origin → Prop
  | .named name => name.head? ≠ some '@'
  | .unnamed base _ _ => ':' ∉ base

/-- Two entries are known by the same, or by texts that only an unusual name makes the same. -/
def Clash (a b : Entry) : Prop :=
  a.origin = b.origin ∨ (¬(a.origin.Plain ∧ b.origin.Plain) ∧ a.origin.text = b.origin.text)

instance : ∀ origin : Origin, Decidable origin.Plain
  | .named name => inferInstanceAs (Decidable (name.head? ≠ some '@'))
  | .unnamed base _ _ => inferInstanceAs (Decidable (':' ∉ base))

instance (a b : Entry) : Decidable (Clash a b) := inferInstanceAs (Decidable (_ ∨ _))

/-- No entry before it clashes with it, or it is a symbol without a submenu of its own and the
first that does is a visible node of the symbol. -/
def OwnHandle (session : Session L) (n : MenuNode) : Prop :=
  (∀ m ∈ session.before n, ¬Clash m.entry n.entry) ∨
    (n.entry.item.isSymbol = true ∧ enterable n = false ∧
      ∃ m, (session.before n).find? (fun m => Clash m.entry n.entry) = some m ∧
        m.entry.item = n.entry.item ∧ visible L session.kconf m = true)

/-! ## What an id says of its entry -/

theorem append_sep_inj {c : Char} {a a' b b' : Str} (ha : c ∉ a) (ha' : c ∉ a')
    (h : a ++ c :: b = a' ++ c :: b') : a = a' ∧ b = b' := by
  induction a generalizing a' with
  | nil =>
    cases a' with
    | nil => exact ⟨rfl, (List.cons.inj h).2⟩
    | cons d a' => exact absurd (List.mem_cons.2 (.inl (List.cons.inj h).1)) ha'
  | cons d a ih =>
    cases a' with
    | nil => exact absurd (List.mem_cons.2 (.inl (List.cons.inj h).1.symm)) ha
    | cons d' a' =>
      obtain ⟨rfl, htail⟩ := List.cons.inj h
      obtain ⟨rfl, hb⟩ := ih (mt (List.mem_cons_of_mem d) ha) (mt (List.mem_cons_of_mem d) ha') htail
      exact ⟨rfl, hb⟩

theorem toString_toList (line : Nat) : (toString line).toList = Nat.toDigits 10 line :=
  Nat.toList_repr

theorem colon_notMem_toString (line : Nat) : ':' ∉ (toString line).toList := by
  rw [toString_toList]
  intro h
  exact absurd (Nat.isDigit_of_mem_toDigits (by decide) (by decide) h) (by decide)

theorem toString_toList_inj {line line' : Nat}
    (h : (toString line).toList = (toString line').toList) : line = line' := by
  rw [toString_toList, toString_toList] at h
  rw [← Nat.ofDigitChars_ten_toDigits (n := line), h, Nat.ofDigitChars_ten_toDigits]

theorem unnamedId_inj {base base' prompt prompt' : Str} {line line' : Nat} (hbase : ':' ∉ base)
    (hbase' : ':' ∉ base') (h : unnamedId base line prompt = unnamedId base' line' prompt') :
    base = base' ∧ line = line' ∧ prompt = prompt' := by
  obtain ⟨rfl, htail⟩ := append_sep_inj hbase hbase' (List.cons.inj h).2
  obtain ⟨hline, rfl⟩ :=
    append_sep_inj (colon_notMem_toString line) (colon_notMem_toString line') htail
  exact ⟨rfl, toString_toList_inj hline, rfl⟩

theorem text_inj {a b : Origin} (ha : a.Plain) (hb : b.Plain) (h : a.text = b.text) : a = b := by
  cases a with
  | named name =>
    cases b with
    | named name' => rw [Origin.text, Origin.text] at h; rw [h]
    | unnamed base line prompt => exact absurd (congrArg List.head? h) ha
  | unnamed base line prompt =>
    cases b with
    | named name => exact absurd (congrArg List.head? h.symm) hb
    | unnamed base' line' prompt' =>
      obtain ⟨rfl, rfl, rfl⟩ := unnamedId_inj ha hb h
      rfl

theorem nodeId_eq (n : MenuNode) : nodeId n = n.entry.origin.text := by
  rw [nodeId, Entry.origin]
  cases n.entry.item.name with
  | none => rfl
  | some name =>
    dsimp only
    split_ifs <;> rfl

theorem nodeId_eq_iff (m n : MenuNode) : nodeId m = nodeId n ↔ Clash m.entry n.entry := by
  rw [nodeId_eq, nodeId_eq, Clash]
  constructor
  · intro h
    by_cases hplain : m.entry.origin.Plain ∧ n.entry.origin.Plain
    · exact .inl (text_inj hplain.1 hplain.2 h)
    · exact .inr ⟨hplain, h⟩
  · rintro (h | ⟨-, h⟩)
    · rw [h]
    · exact h

/-! ## Where a session stands -/

def Session.Placed (session : Session L) : Prop := ∀ node ∈ session.below, node ∈ session.nodes

theorem find_spec {id : Str} (h : session.find id = .ok n) : n ∈ session.nodes ∧ nodeId n = id := by
  rw [Session.find] at h
  cases hfind : session.nodes.find? (nodeId · = id) with
  | none => simp [hfind] at h
  | some m =>
    rw [hfind] at h
    obtain rfl := Except.ok.inj h
    exact ⟨List.mem_of_find?_eq_some hfind, by simpa using List.find?_some hfind⟩

theorem enter_eq {id : Str} {after : Session L} (h : session.enter id = .ok after) :
    ∃ node, session.find id = .ok node ∧ after = { session with below := session.below ++ [node] } := by
  rw [Session.enter] at h
  cases hfind : session.find id with
  | error e => simp [hfind, bind, Except.bind] at h
  | ok node =>
    simp only [hfind, bind, Except.bind] at h
    split_ifs at h
    exact ⟨node, rfl, (Except.ok.inj h).symm⟩

theorem setValue_frame (int : Nat → Str → Option Int) (session : Session L) (id text : Str) :
    (session.setValue int id text).2.top = session.top ∧
      (session.setValue int id text).2.below.Sublist session.below := by
  rw [Session.setValue]
  cases session.find id with
  | error e => exact ⟨rfl, .refl _⟩
  | ok node =>
    dsimp only
    cases refusal session node id with
    | some e => exact ⟨rfl, .refl _⟩
    | none =>
      dsimp only
      rcases setNode int session node id (strip text) with ⟨_ | e, kconf⟩
      · exact ⟨rfl, (List.rdropWhile_prefix _ _).sublist⟩
      · exact ⟨rfl, .refl _⟩

theorem Opened.placed (h : Opened session) : session.Placed := by
  induction h with
  | parsed top kconf dirty revision => exact fun node hnode => absurd hnode List.not_mem_nil
  | enter _ he ih =>
    obtain ⟨node, hfind, rfl⟩ := enter_eq he
    intro m hm
    rcases List.mem_append.1 hm with hm | hm
    · exact ih m hm
    · obtain rfl := List.mem_singleton.1 hm
      exact (find_spec hfind).1
  | up _ ih => exact fun node hnode => ih node (List.dropLast_subset _ hnode)
  | @setValue session int id text _ ih =>
    obtain ⟨htop, hbelow⟩ := setValue_frame int session id text
    intro node hnode
    rw [Session.nodes, htop]
    exact ih node (hbelow.subset hnode)

theorem mem_nodes_of_menu (h : session.Placed) (hn : n ∈ session.menuNodes) :
    n ∈ session.nodes ∧ visible L session.kconf n = true := by
  obtain ⟨⟨_, depth⟩, hmem, rfl⟩ := List.mem_map.1 hn
  obtain ⟨hwalk, hvisible⟩ := mem_walk_of_collect hmem
  refine ⟨?_, hvisible⟩
  rw [Session.current] at hwalk
  cases hlast : session.below.getLast? with
  | none => simpa [hlast, Session.nodes] using hwalk
  | some node =>
    rw [hlast] at hwalk
    exact walk_subset (h node (List.mem_of_getLast? hlast)) hwalk

theorem mem_nodes_of_found {lower : Str → Str} {query : Str} {limit : Nat}
    (hn : n ∈ session.found lower query limit) :
    n ∈ session.nodes ∧ visible L session.kconf n = true := by
  rw [Session.found] at hn
  split_ifs at hn
  · exact absurd hn List.not_mem_nil
  · have hfilter := List.mem_filter.1 (List.mem_of_mem_take hn)
    exact ⟨hfilter.1, (Bool.and_eq_true_iff.1 hfilter.2).1⟩

/-! ## From the id to the entry -/

theorem nodes_eq (h : n ∈ session.nodes) : ∃ after, session.nodes = session.before n ++ n :: after := by
  have hsplit := List.takeWhile_append_dropWhile (p := fun m => decide (m ≠ n)) (l := session.nodes)
  cases hdrop : session.nodes.dropWhile fun m => decide (m ≠ n) with
  | nil =>
    have := List.dropWhile_eq_nil_iff.1 hdrop n h
    simp at this
  | cons m after =>
    have hhead := List.head?_dropWhile_not (fun m => decide (m ≠ n)) session.nodes
    rw [hdrop] at hhead
    obtain rfl : m = n := by simpa using hhead
    rw [hdrop] at hsplit
    exact ⟨after, hsplit.symm⟩

theorem find_nodeId (h : n ∈ session.nodes) : session.find (nodeId n) =
    .ok (((session.before n).find? fun m => Clash m.entry n.entry).getD n) := by
  obtain ⟨after, hnodes⟩ := nodes_eq h
  have hown : Clash n.entry n.entry := .inl rfl
  simp only [Session.find, nodeId_eq_iff, hnodes, List.find?_append]
  cases (session.before n).find? fun m => Clash m.entry n.entry with
  | some m => rfl
  | none => simp [hown]

/-- Of a symbol, `set_value` uses what does not depend on the node. -/
theorem setNode_congr {name : Str} {type : SymbolType} (hn : n.entry.item = .symbol name type)
    (hm : m.entry.item = .symbol name type) (hid : nodeId m = nodeId n)
    (int : Nat → Str → Option Int) (id wanted : Str) :
    setNode int session m id wanted = setNode int session n id wanted := by
  have hcheck : ∀ range, checkRange int m type wanted range = checkRange int n type wanted range :=
    fun range => by rw [checkRange, checkRange, hid]
  have hassignable : assignable L session.kconf m = assignable L session.kconf n := by
    cases type <;> simp only [assignable, hn, hm]
  have hrange : valueRange L session.kconf m = valueRange L session.kconf n := by
    cases type <;> simp only [valueRange, hn, hm]
  simp only [setNode, hn, hm, hassignable, assign, hrange, hid, funext hcheck]

theorem rows_lead_back_iff (session : Session L) (h : Opened session) (n : MenuNode)
    (hn : n ∈ session.menuNodes ∨ ∃ lower query limit, n ∈ session.found lower query limit) :
    Leads session n ↔ OwnHandle session n := by
  obtain ⟨hmem, hvisible⟩ : n ∈ session.nodes ∧ visible L session.kconf n = true := by
    rcases hn with hn | ⟨lower, query, limit, hn⟩
    · exact mem_nodes_of_menu h.placed hn
    · exact mem_nodes_of_found hn
  have hfind := find_nodeId hmem
  rw [OwnHandle]
  cases hfirst : (session.before n).find? fun m => Clash m.entry n.entry with
  | none =>
    rw [hfirst, Option.getD_none] at hfind
    refine iff_of_true ⟨⟨n, hfind, ?_, fun _ _ => rfl⟩, fun he => ?_⟩ (.inl fun m hm => ?_)
    · split_ifs
      · exact ⟨rfl, hvisible⟩
      · rfl
    · simp [Session.enter, hfind, bind, Except.bind, he]
    · simpa using List.find?_eq_none.1 hfirst m hm
  | some m =>
    rw [hfirst, Option.getD_some] at hfind
    have hbefore := List.mem_of_find?_eq_some hfirst
    have hclash : Clash m.entry n.entry := by simpa using List.find?_some hfirst
    have hne : m ≠ n := by simpa using List.mem_takeWhile_imp hbefore
    constructor
    · rintro ⟨⟨m', hm', hsame, -⟩, hentered⟩
      obtain rfl := Except.ok.inj (hfind.symm.trans hm')
      split_ifs at hsame with hsymbol
      · refine .inr ⟨hsymbol, ?_, m, rfl, hsame⟩
        by_contra henter
        rw [Bool.not_eq_false] at henter
        obtain ⟨m', hm', hafter⟩ := enter_eq (hentered henter)
        obtain rfl := Except.ok.inj (hfind.symm.trans hm')
        have hbelow := congrArg Session.below hafter
        exact hne (by simpa using hbelow.symm)
      · exact absurd hsame hne
    · rintro (hall | ⟨hsymbol, henter, m', hm', hitem, hshown⟩)
      · exact absurd hclash (hall m hbefore)
      · obtain rfl := Option.some.inj hm'
        refine ⟨⟨m, hfind, by rw [if_pos hsymbol]; exact ⟨hitem, hshown⟩, fun int wanted => ?_⟩,
          fun he => by simp [henter] at he⟩
        cases hn : n.entry.item with
        | symbol name type =>
          exact setNode_congr hn (hitem.trans hn) ((nodeId_eq_iff m n).2 hclash) int _ _
        | menu | comment | choice => simp [hn, Item.isSymbol] at hsymbol

end Handles

/-! ## A tree of two boards -/

/-- Everything is shown, and nothing can be changed. -/
def shownAll : Library where
  State := Unit
  promptValue _ _ := 2
  visibility _ _ := 2
  strValue _ _ := ['n']
  assignable _ _ := []
  activeRange _ _ := none
  selection _ _ := none
  setValue s _ _ := (false, s)
  written _ := []

def menuEntry (ref : Nat) (filename : Str) : Entry where
  ref
  item := .menu
  prompt := some ['O']
  filename
  linenr := 3
  help := none
  isMenuconfig := true

def stm32Menu : MenuNode := ⟨menuEntry 1 ['s', '/', 'K'], .nil, some (menuEntry 0 ['K'])⟩

def rp2040Menu : MenuNode := ⟨menuEntry 2 ['r', '/', 'K'], .nil, some (menuEntry 0 ['K'])⟩

def twoBoards : Session shownAll where
  top := {
    entry := menuEntry 0 ['K']
    list := .node stm32Menu.entry .nil (.node rp2040Menu.entry .nil .nil)
    parent := none }
  kconf := ()

theorem rows_lead_back_iff_first : stm32Menu ∈ twoBoards.menuNodes ∧ Leads twoBoards stm32Menu :=
  ⟨by decide, (rows_lead_back_iff twoBoards (@Opened.parsed shownAll twoBoards.top () false 0) stm32Menu
    (.inl (by decide))).2 (.inl (by decide))⟩

/-- The same line and prompt in two files of one base name: the second menu opens the first. -/
theorem second_menu_opens_first :
    rp2040Menu ∈ twoBoards.menuNodes ∧ rp2040Menu ≠ stm32Menu ∧
      twoBoards.find (nodeId rp2040Menu) = .ok stm32Menu ∧
      twoBoards.enter (nodeId rp2040Menu) = .ok { twoBoards with below := [stm32Menu] } := by
  refine ⟨by decide, by decide, by rfl, by rfl⟩

end McuUpdater.Kconfig
