import McuUpdater.Discovery.Sockets
import McuUpdater.Lib.Dict
import McuUpdater.Lib.Except

/-! `discovery/bootsel.py`: the USB socket that a confirmed tty is on. -/
namespace McuUpdater.Bootsel
open PyText Numbers ExceptList Dict
open Kconfig (basename)

/-- What is read of the by-path directory; `none` where it raises. -/
structure ByPathView where
  names : Option (List Str)
  /-- `os.path.samefile(<entry>, port)` -/
  samefile : Str → Str → Option Bool

inductive TopologyError
  | unreadable
  | notNormalized (name : Str)
  | noMatch
  | ambiguous (topologies : List Str)
  deriving DecidableEq

/-- One entry in the loop of `serial_topology_for`, or the name that is not normalized. -/
def entryTopology (view : ByPathView) (port name : Str) : Except TopologyError (Option Str) :=
  if view.samefile name port = some true then
    match normalizeSerialTopology name with
    | none => .error (.notNormalized name)
    | some topology => .ok (some topology)
  else .ok none

/-- `serial_topology_for` -/
def serialTopologyFor (view : ByPathView) (port : Str) : Except TopologyError Str :=
  match view.names with
  | none => .error .unreadable
  | some names => do
    let matched ← (sorted names).mapM (entryTopology view port)
    match sorted (matched.filterMap id).eraseDups with
    | [] => .error .noMatch
    | [topology] => .ok topology
    | topologies => .error (.ambiguous topologies)

/-- The by-path entry of a board's tty on this socket: its USB interface, and the number of its
port where it is of a serial converter. -/
def Topology.serialName (T : Topology) (v2 : Bool) (interface : Nat × Nat) (port : Option Nat) : Str :=
  T.text v2 ++ ':' :: (numbers '.' [interface.1, interface.2] ++
    (port.map fun n => '-' :: ("port".toList ++ Nat.toDigits 10 n)).getD [])

/-- Every entry that leads to this tty is one of a board's on this socket. -/
def ByPathView.OnSocket (view : ByPathView) (tty : Str) (T : Topology) : Prop :=
  ∀ names, view.names = some names → ∀ name ∈ names, view.samefile name tty = some true →
    ∃ v2 interface port, name = T.serialName v2 interface port

section Facts
variable {T : Topology} {v2 : Bool} {interface : Nat × Nat} {port : Option Nat} {view : ByPathView}
  {tty topology name s : Str} {names : List Str}

/-- What `_SERIAL_INTERFACE` matches has no second colon. -/
theorem colon_of_interfaceAt (h : interfaceAt s = true) : ∃ rest, s = ':' :: rest ∧ ':' ∉ rest := by
  have hplain : ∀ ds : Str, (∀ c ∈ ds, c.isDigit = true) → ':' ∉ ds := fun ds hds hmem =>
    absurd (hds _ hmem) (by decide)
  have hend : ∀ t : Str, atEnd t = true → ':' ∉ t := by
    intro t ht hmem
    simp only [atEnd, Bool.or_eq_true, decide_eq_true_eq] at ht
    rcases ht with rfl | rfl
    · cases hmem
    · exact absurd hmem (by decide)
  obtain ⟨s1, h1, h⟩ := (Option.any_eq_true _ _).mp h
  obtain ⟨s0, h0, h1⟩ := Option.bind_eq_some_iff.mp h1
  obtain ⟨s2, h2, h⟩ := (Option.any_eq_true _ _).mp h
  obtain ⟨s3, h3, h2⟩ := Option.bind_eq_some_iff.mp h2
  obtain ⟨a, -, ha, rfl⟩ := digits_spec h1
  obtain ⟨b, -, hb, rfl⟩ := digits_spec h2
  refine ⟨a ++ s1, after_eq_some.mp h0, ?_⟩
  have hs2 : ':' ∉ s2 := by
    rcases (Bool.or_eq_true _ _).mp h with hat | hport
    · exact hend s2 hat
    · obtain ⟨t, ht, hat⟩ := (Option.any_eq_true _ _).mp hport
      obtain ⟨u, hu, ht⟩ := Option.bind_eq_some_iff.mp ht
      obtain ⟨ds, -, hds, rfl⟩ := digits_spec ht
      rw [after_eq_some.mp hu]
      simp only [List.mem_append, not_or]
      exact ⟨by decide, hplain ds hds, hend t hat⟩
  rw [after_eq_some.mp h3]
  simp only [List.mem_append, List.mem_cons, not_or]
  exact ⟨hplain a ha, by simp, hplain b hb, hs2⟩

theorem interfaceAt_serialName : interfaceAt (':' :: (numbers '.' [interface.1, interface.2] ++
    (port.map fun n => '-' :: ("port".toList ++ Nat.toDigits 10 n)).getD [])) = true := by
  have hfirst : ∀ rest : Str, after [':'] (':' :: rest) = some rest := fun rest =>
    after_eq_some.mpr rfl
  have hdot : ∀ rest : Str, after ['.'] ('.' :: rest) = some rest := fun rest =>
    after_eq_some.mpr rfl
  have hstop : ∀ c : Char, c.isDigit = false → ∀ rest : Str, ∀ d ∈ (c :: rest).head?,
      d.isDigit = false := by
    intro c hc rest d hd
    rw [← Option.some.inj hd, hc]
  rw [interfaceAt, hfirst, Option.bind_some, numbers_cons, List.append_assoc, List.cons_append,
    digits_toDigits (hstop '.' (by decide) _), Option.any_some, hdot, Option.bind_some]
  cases port with
  | none =>
    have hlast : digits (Nat.toDigits 10 interface.2 ++ []) = some [] := digits_toDigits (by simp)
    simp only [Option.map_none, Option.getD_none]
    exact hlast ▸ rfl
  | some n =>
    have hn : digits (Nat.toDigits 10 n ++ []) = some [] := digits_toDigits (by simp)
    have hafter : after "-port".toList ('-' :: ("port".toList ++ Nat.toDigits 10 n)) =
        some (Nat.toDigits 10 n) := after_eq_some.mpr rfl
    rw [List.append_nil] at hn
    simp only [Option.map_some, Option.getD_some]
    rw [show numbers '.' [interface.2] = Nat.toDigits 10 interface.2 from rfl,
      digits_toDigits (hstop '-' (by decide) _), Option.any_some, portAt, hafter, Option.bind_some,
      hn]
    rfl

theorem serialInterface_append {t : Str} (h : interfaceAt (':' :: t) = true) :
    serialInterface (s ++ ':' :: t) = some s.length := by
  rw [serialInterface, List.findIdx?_eq_some_iff_getElem]
  refine ⟨by simp; omega, ?_, fun i hi => ?_⟩
  · rw [List.getElem_tails, List.drop_left]
    exact h
  · rw [List.getElem_tails, Bool.not_eq_true, Bool.eq_false_iff]
    intro hat
    obtain ⟨rest, hrest, hcolon⟩ := colon_of_interfaceAt hat
    rw [List.drop_append_of_le_length hi.le, List.drop_eq_getElem_cons hi, List.cons_append] at hrest
    refine hcolon ?_
    rw [← (List.cons.inj hrest).2]
    simp

theorem slash_notMem_serialName (h : T.WellFormed) : '/' ∉ T.serialName v2 interface port := by
  have hdigits : ∀ n, '/' ∉ Nat.toDigits 10 n := fun n => notMem_toDigits (by decide)
  have hnumbers : '/' ∉ numbers '.' [interface.1, interface.2] := by
    intro hmem
    rcases mem_numbers hmem with he | hdigit
    · exact absurd he (by decide)
    · exact absurd hdigit (by decide)
  have hport : '/' ∉ (port.map fun n => '-' :: ("port".toList ++ Nat.toDigits 10 n)).getD [] := by
    cases port with
    | none => exact List.not_mem_nil
    | some n =>
      simp only [Option.map_some, Option.getD_some, List.mem_cons, List.mem_append, not_or]
      exact ⟨by decide, by decide, hdigits n⟩
  simp only [Topology.serialName, List.mem_append, List.mem_cons, not_or]
  exact ⟨slash_notMem_text h, by decide, hnumbers, hport⟩

theorem words_serialName (T : Topology) : ∀ w ∈ ('0' :: ':' :: numbers '.' T.ports ++
    ':' :: (numbers '.' [interface.1, interface.2] ++
      (port.map fun n => '-' :: ("port".toList ++ Nat.toDigits 10 n)).getD [])).splitOn '-',
    w ≠ "usbv2".toList := by
  have hfirst : ∀ t : Str, '0' :: t ≠ "usbv2".toList := fun t he =>
    absurd (List.cons.inj he).1 (by decide)
  have hhead : '-' ∉ '0' :: ':' :: numbers '.' T.ports ++
      ':' :: numbers '.' [interface.1, interface.2] := by
    intro hmem
    simp only [List.mem_append, List.mem_cons] at hmem
    have hnumbers : ∀ ns, '-' ∉ numbers '.' ns := by
      intro ns hns
      rcases mem_numbers hns with he | hdigit
      · exact absurd he (by decide)
      · exact absurd hdigit (by decide)
    rcases hmem with (he | he | hns) | he | hns
    · exact absurd he (by decide)
    · exact absurd he (by decide)
    · exact hnumbers _ hns
    · exact absurd he (by decide)
    · exact hnumbers _ hns
  rw [← List.cons_append, ← List.append_assoc]
  cases port with
  | none =>
    simp only [Option.map_none, Option.getD_none, List.append_nil]
    rw [List.splitOn_eq_singleton hhead]
    intro w hw
    rw [List.mem_singleton.mp hw]
    exact hfirst _
  | some n =>
    have hport : '-' ∉ "port".toList ++ Nat.toDigits 10 n := by
      simp only [List.mem_append, not_or]
      exact ⟨by decide, notMem_toDigits (by decide)⟩
    simp only [Option.map_some, Option.getD_some]
    rw [List.splitOn_append_cons_self, List.splitOn_eq_singleton hhead,
      List.splitOn_eq_singleton hport]
    intro w hw
    rcases List.mem_append.mp hw with hw | hw
    · rw [List.mem_singleton.mp hw]
      exact hfirst _
    · rw [List.mem_singleton.mp hw]
      exact fun he => absurd (List.cons.inj he).1 (by decide)

theorem normalize_serialName (h : T.WellFormed) :
    normalizeSerialTopology (T.serialName v2 interface port) = some (T.text false) := by
  have halias : usbAlias (T.serialName v2 interface port) = T.serialName false interface port := by
    rw [Topology.serialName, Topology.serialName, Topology.text, Topology.text]
    simpa using @usbAlias_usbWord v2 T.controller _ (fun w hw => (h.words w hw).1)
      (@words_serialName interface port T)
  rw [normalizeSerialTopology, basename_of_notMem (slash_notMem_serialName h), halias]
  rw [Topology.serialName, serialInterface_append interfaceAt_serialName]
  simp

theorem splitOn_text (T : Topology) : (T.text false).splitOn '-' =
    T.controller.splitOn '-' ++ [usbWord false, '0' :: ':' :: numbers '.' T.ports] := by
  rw [Topology.text, List.splitOn_append_cons_self, List.splitOn_append_cons_self,
    List.splitOn_eq_singleton hyphen_notMem_usbWord, splitOn_ports]
  rfl

/-- Two sockets have two topologies. -/
theorem text_injective {U : Topology} (hT : T.WellFormed) (hU : U.WellFormed)
    (h : T.text false = U.text false) : T = U := by
  have hwords := congrArg (List.splitOn '-') h
  rw [splitOn_text, splitOn_text] at hwords
  obtain ⟨hcontroller, hlast⟩ := List.append_inj' hwords rfl
  have hports : numbers '.' T.ports = numbers '.' U.ports := by simpa using hlast
  have hsplit := congrArg (List.splitOn '.') hports
  rw [splitOn_numbers (by decide) hT.ports, splitOn_numbers (by decide) hU.ports] at hsplit
  have hchain := List.map_injective_iff.mpr toDigits_injective hsplit
  have hjoin := congrArg (List.intercalate ['-']) hcontroller
  rw [List.intercalate_splitOn, List.intercalate_splitOn] at hjoin
  cases T
  cases U
  simp_all

theorem entryTopology_ok {found : Option Str} : entryTopology view tty name = .ok found ↔
    (view.samefile name tty = some true ∧ normalizeSerialTopology name = found ∧ found ≠ none) ∨
    (view.samefile name tty ≠ some true ∧ found = none) := by
  unfold entryTopology
  split_ifs with hsame
  · cases normalizeSerialTopology name with
    | none => simpa [hsame] using fun h => h.symm
    | some topology =>
      have hne : ∀ f, some topology = f → f ≠ none := by
        rintro _ rfl
        simp
      simpa [hsame] using hne found
  · simp [hsame, eq_comm]

/-- `sorted(set(l))` is one text. -/
theorem sorted_eraseDups_eq {l : List Str} :
    sorted l.eraseDups = [s] ↔ s ∈ l ∧ ∀ t ∈ l, t = s := by
  have hperm : sorted l.eraseDups = [s] ↔ l.eraseDups = [s] := by
    constructor
    · intro h
      have hp : [s].Perm l.eraseDups := h ▸ List.mergeSort_perm _ _
      exact (List.perm_singleton.mp hp.symm)
    · intro h
      rw [sorted, h, List.mergeSort_singleton]
  rw [hperm]
  constructor
  · intro h
    have hmem : ∀ t, t ∈ l ↔ t = s := fun t => by rw [← List.mem_eraseDups, h, List.mem_singleton]
    exact ⟨(hmem s).mpr rfl, fun t => (hmem t).mp⟩
  · intro h
    have hmem : ∀ t, t ∈ l.eraseDups ↔ t = s := fun t => by
      rw [List.mem_eraseDups]
      exact ⟨h.2 t, fun he => he ▸ h.1⟩
    refine List.perm_singleton.mp ?_
    rw [List.perm_ext_iff_of_nodup (nodup_eraseDups l) (List.nodup_singleton s)]
    exact fun t => (hmem t).trans List.mem_singleton.symm

theorem serialTopologyFor_ok : serialTopologyFor view tty = .ok topology ↔
    ∃ names, view.names = some names ∧ (∃ name ∈ names, view.samefile name tty = some true) ∧
      ∀ name ∈ names, view.samefile name tty = some true →
        normalizeSerialTopology name = some topology := by
  unfold serialTopologyFor
  cases view.names with
  | none => simp
  | some names =>
    simp only [Option.some.injEq, exists_eq_left']
    have hmem : ∀ name, name ∈ sorted names ↔ name ∈ names := fun _ => List.mem_mergeSort
    constructor
    · intro h
      obtain ⟨matched, hmap, h⟩ := bind_ok h
      have hone : sorted (matched.filterMap id).eraseDups = [topology] := by
        split at h
        case h_2 found hfound =>
          rw [hfound, Except.ok.inj h]
        all_goals cases h
      obtain ⟨hin, hall⟩ := sorted_eraseDups_eq.mp hone
      have hfound : ∀ t, t ∈ matched.filterMap id ↔ ∃ name ∈ names,
          view.samefile name tty = some true ∧ normalizeSerialTopology name = some t := by
        intro t
        simp only [List.mem_filterMap, id, exists_eq_right, mem_mapM hmap, hmem, entryTopology_ok]
        simp
      obtain ⟨name, hname, hsame, -⟩ := (hfound topology).mp hin
      refine ⟨⟨name, hname, hsame⟩, fun name hname hsame => ?_⟩
      obtain ⟨found, hentry⟩ := ok_of_mapM hmap ((hmem name).mpr hname)
      rcases entryTopology_ok.mp hentry with ⟨-, hnorm, hsome⟩ | ⟨hnot, -⟩
      · obtain ⟨t, rfl⟩ := Option.ne_none_iff_exists'.mp hsome
        rw [hnorm, hall t ((hfound t).mpr ⟨name, hname, hsame, hnorm⟩)]
      · exact absurd hsame hnot
    · rintro ⟨⟨name, hname, hsame⟩, hall⟩
      have hentry : ∀ name ∈ sorted names, ∃ found, entryTopology view tty name = .ok found := by
        intro name hname
        by_cases hsame : view.samefile name tty = some true
        · exact ⟨_, entryTopology_ok.mpr (.inl ⟨hsame, hall name ((hmem name).mp hname) hsame,
            by simp⟩)⟩
        · exact ⟨_, entryTopology_ok.mpr (.inr ⟨hsame, rfl⟩)⟩
      obtain ⟨matched, hmap⟩ := exists_mapM_ok hentry
      have hone : sorted (matched.filterMap id).eraseDups = [topology] := by
        refine sorted_eraseDups_eq.mpr ?_
        simp only [List.mem_filterMap, id, exists_eq_right, mem_mapM hmap, hmem, entryTopology_ok]
        refine ⟨⟨name, hname, .inl ⟨hsame, hall name hname hsame, by simp⟩⟩, ?_⟩
        rintro t ⟨name, hname, ⟨hsame, hnorm, -⟩ | ⟨-, hnone⟩⟩
        · exact Option.some.inj (hnorm.symm.trans (hall name hname hsame))
        · cases hnone
      rw [hmap]
      change (match sorted (matched.filterMap id).eraseDups with
        | [] => _ | [topology] => _ | topologies => _) = _
      rw [hone]

theorem serialTopologyFor_onSocket (hT : T.WellFormed) (hon : view.OnSocket tty T)
    (h : serialTopologyFor view tty = .ok topology) : topology = T.text false := by
  obtain ⟨names, hnames, ⟨name, hmem, hsame⟩, hall⟩ := serialTopologyFor_ok.mp h
  obtain ⟨v2, interface, port, rfl⟩ := hon names hnames name hmem hsame
  have htopology := hall _ hmem hsame
  rw [normalize_serialName hT] at htopology
  exact (Option.some.inj htopology).symm

end Facts

end McuUpdater.Bootsel
