import McuUpdater.Discovery.Bootsel

/-! `discovery/bootsel.py`: of which socket a mounted drive is taken to be. -/
namespace McuUpdater.Bootsel
open PyText Numbers
open Kconfig (basename)

section Sockets
variable {T U : Topology} {v2 : Bool} {interface : Nat × Nat} {host channel target lun : Nat}

theorem hyphen_notMem_usbWord : '-' ∉ usbWord v2 := by
  cases v2 <;> decide

theorem usbAlias_usbWord {s t : Str} (hs : ∀ w ∈ s.splitOn '-', w ≠ "usbv2".toList)
    (ht : ∀ w ∈ t.splitOn '-', w ≠ "usbv2".toList) :
    usbAlias (s ++ '-' :: (usbWord v2 ++ '-' :: t)) = s ++ '-' :: (usbWord false ++ '-' :: t) := by
  rw [usbAlias_append fun w hw => hs w (List.mem_of_mem_tail hw)]
  cases v2 with
  | true =>
    change s ++ usbAlias ('-' :: ("usbv2".toList ++ '-' :: t)) = _
    rw [usbAlias_v2, usbAlias_eq fun w hw => ht w (List.mem_of_mem_tail hw)]
    rfl
  | false =>
    rw [usbAlias_eq]
    rw [splitOn_hyphen, List.tail_cons, List.splitOn_append_cons_self,
      List.splitOn_eq_singleton hyphen_notMem_usbWord]
    intro w hw
    rcases List.mem_append.mp hw with hfirst | hrest
    · rw [List.mem_singleton.mp hfirst]
      decide
    · exact ht w hrest

theorem splitOn_ports (T : Topology) :
    ('0' :: ':' :: numbers '.' T.ports).splitOn '-' = ['0' :: ':' :: numbers '.' T.ports] := by
  refine List.splitOn_eq_singleton fun h => ?_
  rw [List.mem_cons, List.mem_cons] at h
  rcases h with h | h | h
  · exact absurd h (by decide)
  · exact absurd h (by decide)
  · rcases mem_numbers h with he | hdigit
    · exact absurd he (by decide)
    · exact absurd hdigit (by decide)

theorem usbAlias_text (h : T.WellFormed) : usbAlias (T.text v2) = T.text false := by
  refine usbAlias_usbWord (fun w hw => (h.words w hw).1) fun w hw => ?_
  rw [splitOn_ports, List.mem_singleton] at hw
  rw [hw]
  intro he
  exact absurd (List.cons.inj he).1 (by decide)

theorem slash_notMem_text (h : T.WellFormed) : '/' ∉ T.text v2 := by
  intro hmem
  simp only [Topology.text, List.mem_append, List.mem_cons] at hmem
  have hword : '/' ∉ usbWord v2 := by cases v2 <;> decide
  rcases hmem with hc | he | hw | he | he | he | hp
  · exact h.slash hc
  · exact absurd he (by decide)
  · exact hword hw
  · exact absurd he (by decide)
  · exact absurd he (by decide)
  · exact absurd he (by decide)
  · rcases mem_numbers hp with he | hdigit
    · exact absurd he (by decide)
    · exact absurd hdigit (by decide)

theorem not_interface (h : T.WellFormed) : ¬":1.0".toList <:+ T.text false := by
  intro hsuffix
  obtain ⟨port, hport⟩ : ∃ port, T.ports.getLast? = some port :=
    ⟨_, List.getLast?_eq_some_getLast h.ports⟩
  obtain ⟨init, hinit⟩ := List.getLast?_eq_some_iff.mp hport
  have hpositive : 0 < port := h.positive port (by rw [hinit]; simp)
  obtain ⟨before, hbefore⟩ : ∃ before, T.text false = before ++ Nat.toDigits 10 port := by
    rw [Topology.text, hinit]
    cases hi : init with
    | nil => exact ⟨T.controller ++ '-' :: (usbWord false ++ '-' :: ['0', ':']), by
        simp [numbers, joinWith]⟩
    | cons first rest =>
      rw [numbers_append (by simp) (by simp)]
      exact ⟨T.controller ++ '-' :: (usbWord false ++ '-' :: ('0' :: ':' ::
        (numbers '.' (first :: rest) ++ ['.']))), by simp [numbers, joinWith]⟩
  have hdot : ['.', '0'] <:+ T.text false := List.IsSuffix.trans ⟨[':', '1'], rfl⟩ hsuffix
  have hdigits : Nat.toDigits 10 port <:+ T.text false := ⟨before, hbefore.symm⟩
  by_cases hlong : 2 ≤ (Nat.toDigits 10 port).length
  · have hinside : ['.', '0'] <:+ Nat.toDigits 10 port :=
      List.suffix_of_suffix_length_le hdot hdigits hlong
    exact notMem_toDigits (by decide) (hinside.subset (show '.' ∈ ['.', '0'] by decide))
  · have hpos : 0 < (Nat.toDigits 10 port).length := Nat.length_toDigits_pos
    have hzero : Nat.toDigits 10 port <:+ ['.', '0'] :=
      List.suffix_of_suffix_length_le hdigits hdot (by simp; omega)
    have hone : Nat.toDigits 10 port = ['0'] := by
      rw [List.suffix_iff_eq_drop.mp hzero]
      have hlen : (Nat.toDigits 10 port).length = 1 := by omega
      rw [hlen]
      rfl
    have hport0 : port = 0 := toDigits_injective (hone.trans (by decide))
    omega

theorem not_endsWithPort : endsWithPort (T.text false) = false := by
  rw [endsWithPort, List.any_eq_false]
  intro tail htail hany
  obtain ⟨u, hu, hport⟩ := (Option.any_eq_true _ _).mp hany
  obtain ⟨rest, hrest, hend⟩ := (Option.any_eq_true _ _).mp hport
  obtain ⟨v, hv, hdigits⟩ := Option.bind_eq_some_iff.mp hrest
  obtain ⟨ds, -, hds, hvds⟩ := digits_spec hdigits
  obtain ⟨pre, hpre⟩ := (List.mem_tails _ _).mp htail
  have hhyphen : '-' ∉ "port".toList ++ v := by
    rw [hvds]
    intro hmem
    rcases List.mem_append.mp hmem with hword | hmem
    · exact absurd hword (by decide)
    · rcases List.mem_append.mp hmem with hdigit | hlast
      · exact absurd (hds _ hdigit) (by decide)
      · have hcases := (Bool.or_eq_true _ _).mp hend
        rcases hcases with he | he
        · rw [of_decide_eq_true he] at hlast
          cases hlast
        · rw [of_decide_eq_true he] at hlast
          exact absurd hlast (by decide)
  have htext : T.text false = (pre ++ ":1.0".toList) ++ '-' :: ("port".toList ++ v) := by
    rw [← hpre, after_eq_some.mp hu, after_eq_some.mp hv, List.append_assoc]
    rfl
  have hlast := congrArg (fun s => (s.splitOn '-').getLast?) htext
  simp only [Topology.text, List.splitOn_append_cons_self, splitOn_ports,
    List.splitOn_eq_singleton hhyphen, List.splitOn_eq_singleton (@hyphen_notMem_usbWord false)] at hlast
  rw [List.getLast?_append_of_ne_nil _ (by simp), List.getLast?_append_of_ne_nil _ (by simp),
    List.getLast?_append_of_ne_nil _ (by simp), List.getLast?_singleton, List.getLast?_singleton,
    Option.some.injEq] at hlast
  exact absurd (List.cons.inj hlast).1 (by decide)

theorem topologyTagPrefix_text (h : T.WellFormed) :
    topologyTagPrefix (T.text v2) = some ((T.text false).map tagChar) := by
  have hplain : (":1.0".toList.isSuffixOf (T.text false) || endsWithPort (T.text false)) = false := by
    rw [not_endsWithPort, Bool.or_false, Bool.eq_false_iff]
    exact fun he => not_interface h (List.isSuffixOf_iff_suffix.mp he)
  rw [topologyTagPrefix, basename_of_notMem (slash_notMem_text h), usbAlias_text h]
  dsimp only
  rw [hplain]
  rfl

theorem plain_usbWord : ∀ c ∈ usbWord v2, isSeparator c = false :=
  plain_of_all (by cases v2 <;> decide)

theorem tidy_drive (h : T.WellFormed) : Tidy (T.drive v2 interface host channel target lun) := by
  have hhyphen : Tidy ['-'] := tidy_of_plain (plain_of_all (by decide))
  have hzero : Tidy ['0'] := tidy_of_plain (plain_of_all (by decide))
  have hscsi : Tidy "scsi".toList := tidy_of_plain (plain_of_all (by decide))
  have hchain : Tidy (numbers '.' T.ports) := tidy_numbers h.ports
  have hinterface : Tidy (numbers '.' [interface.1, interface.2]) := tidy_numbers (by simp)
  have haddress : Tidy (numbers ':' [host, channel, target, lun]) := tidy_numbers (by simp)
  have hports : Tidy ('0' :: ':' :: numbers '.' T.ports) :=
    hzero.between hchain (by simp) (numbers_ne_nil h.ports)
  have htext : Tidy (T.text v2) :=
    h.tidy.append (hhyphen.append ((tidy_of_plain plain_usbWord).append (hhyphen.append hports)))
  exact htext.between (hinterface.append (hhyphen.append (hscsi.append (hhyphen.append haddress))))
    (by simp [Topology.text]) (by simp)

theorem map_tagChar_text (h : T.WellFormed) : (T.text v2).map tagChar =
    T.controller.map tagChar ++ '-' :: (usbWord v2 ++ '-' :: numbers '_' (0 :: T.ports)) := by
  have hchain : (numbers '.' T.ports).map tagChar = numbers '_' T.ports :=
    map_tagChar_numbers (by decide)
  have hports : numbers '_' (0 :: T.ports) = '0' :: '_' :: numbers '_' T.ports := by
    obtain ⟨port, ports, hcons⟩ := List.exists_cons_of_ne_nil h.ports
    rw [hcons, numbers_cons]
    rfl
  rw [Topology.text, hports, List.map_append, List.map_cons, List.map_append, List.map_cons,
    List.map_cons, List.map_cons, hchain, map_tagChar_plain plain_usbWord]
  rfl

theorem mountTag_eq (h : T.WellFormed) : T.mountTag v2 interface host channel target lun =
    T.controller.map tagChar ++ '-' :: (usbWord v2 ++ '-' ::
      (numbers '_' (0 :: T.ports) ++ '_' :: (numbers '_' [interface.1, interface.2] ++
        '-' :: ("scsi".toList ++ '-' :: numbers '_' [host, channel, target, lun])))) := by
  have hinterface : (numbers '.' [interface.1, interface.2]).map tagChar =
      numbers '_' [interface.1, interface.2] := map_tagChar_numbers (by decide)
  have haddress : (numbers ':' [host, channel, target, lun]).map tagChar =
      numbers '_' [host, channel, target, lun] := map_tagChar_numbers (by decide)
  have hscsi : "scsi".toList.map tagChar = "scsi".toList := by decide
  rw [Topology.mountTag, (tidy_drive h).idPathTag, Topology.drive, List.map_append,
    map_tagChar_text h, List.map_cons, List.map_append, List.map_cons, List.map_append,
    List.map_cons, hinterface, haddress, hscsi]
  simp [tagChar]

theorem splitOn_place (T : Topology) : (numbers '_' (0 :: T.ports) ++ '_' ::
      (numbers '_' [interface.1, interface.2] ++
        '-' :: ("scsi".toList ++ '-' :: numbers '_' [host, channel, target, lun]))).splitOn '-' =
    [numbers '_' (0 :: (T.ports ++ [interface.1, interface.2])), "scsi".toList,
      numbers '_' [host, channel, target, lun]] := by
  have hjoin : numbers '_' (0 :: T.ports) ++ '_' :: numbers '_' [interface.1, interface.2] =
      numbers '_' (0 :: (T.ports ++ [interface.1, interface.2])) :=
    (numbers_append (by simp) (by simp)).symm
  have hscsi : '-' ∉ "scsi".toList := by decide
  rw [← List.cons_append, ← List.append_assoc, hjoin, List.splitOn_append_cons_self,
    List.splitOn_append_cons_self, List.splitOn_eq_singleton hyphen_notMem_numbers,
    List.splitOn_eq_singleton hscsi, List.splitOn_eq_singleton hyphen_notMem_numbers]
  rfl

theorem head_numbers_zero (ns : List Nat) (s : Str) :
    (numbers '_' (0 :: ns) ++ s).head? = some '0' := by
  cases ns <;> rfl

theorem ne_of_head {c : Char} {s : Str} (h : s.head? = some '0') (hc : c ≠ '0') (t : Str) :
    ¬(c :: t) <+: s := by
  intro hpre
  obtain ⟨rest, rfl⟩ := hpre
  exact hc (Option.some.inj h)

theorem usbAlias_mountTag (h : T.WellFormed) :
    usbAlias (T.mountTag v2 interface host channel target lun) =
      T.mountTag false interface host channel target lun := by
  rw [mountTag_eq h, mountTag_eq h]
  refine usbAlias_usbWord (fun w hw => ?_) fun w hw => ?_
  · rw [splitOn_map_tagChar] at hw
    obtain ⟨v, hv, rfl⟩ := List.mem_map.mp hw
    exact fun he => (h.words v hv).1 (of_map_tagChar_eq he (by decide))
  · have hnumber : ∀ n ns, numbers '_' (n :: ns) ≠ "usbv2".toList := by
      intro n ns he
      have hmem : 'u' ∈ numbers '_' (n :: ns) := by rw [he]; decide
      rcases mem_numbers hmem with hu | hu
      · exact absurd hu (by decide)
      · exact absurd hu (by decide)
    rw [splitOn_place T] at hw
    simp only [List.mem_cons, List.not_mem_nil, or_false] at hw
    rcases hw with rfl | rfl | rfl
    · exact hnumber _ _
    · decide
    · exact hnumber _ _

theorem slash_notMem_tag (s : Str) : '/' ∉ s.map tagChar := by
  intro hmem
  obtain ⟨c, -, hc⟩ := List.mem_map.mp hmem
  rw [of_tagChar_eq hc (by decide)] at hc
  exact absurd hc (by decide)

/-- A mount is that of a drive on the socket, if it is the same chain of ports of a controller
with the same tag. -/
def SameTag (T U : Topology) : Prop :=
  T.ports = U.ports ∧ T.controller.map tagChar = U.controller.map tagChar

/-- The words of a tag before its SCSI address, which no other word is taken for. -/
theorem takeWhile_words {controller usb place : Str} {rest : List Str}
    (hcontroller : ∀ w ∈ controller.splitOn '-', ¬"scsi".toList <+: w)
    (husb : ¬"scsi".toList <+: usb) (hplace : place.head? = some '0') (first : Str) :
    (controller.splitOn '-' ++ [usb, place] ++ ("scsi".toList ++ first) :: rest).takeWhile
      (fun w => !"scsi".toList.isPrefixOf w) = controller.splitOn '-' ++ [usb, place] := by
  have hnot : ∀ w : Str, ¬"scsi".toList <+: w → (!"scsi".toList.isPrefixOf w) = true := by
    intro w hw
    rw [Bool.not_eq_true', Bool.eq_false_iff]
    exact fun he => hw (List.isPrefixOf_iff_prefix.mp he)
  rw [List.takeWhile_append_of_pos, List.takeWhile_cons_of_neg, List.append_nil]
  · simp
  · intro w hw
    simp only [List.mem_append, List.mem_cons, List.not_mem_nil, or_false] at hw
    rcases hw with hc | rfl | rfl
    · exact hnot w (hcontroller w hc)
    · exact hnot w husb
    · exact hnot w (ne_of_head hplace (by decide) _)

theorem scsi_words (h : T.WellFormed) :
    ∀ w ∈ (T.controller.map tagChar).splitOn '-', ¬"scsi".toList <+: w := by
  intro w hw
  rw [splitOn_map_tagChar] at hw
  obtain ⟨v, hv, rfl⟩ := List.mem_map.mp hw
  rintro ⟨rest, hrest⟩
  obtain ⟨a, b, rfl, ha, -⟩ := List.map_eq_append_iff.mp hrest.symm
  refine (h.words _ hv).2 ⟨b, ?_⟩
  rw [of_map_tagChar_eq ha (by decide)]

theorem splitOn_mountTag (hT : T.WellFormed) :
    (T.mountTag false interface host channel target lun).splitOn '-' =
      (T.controller.map tagChar).splitOn '-' ++
        [usbWord false, numbers '_' (0 :: (T.ports ++ [interface.1, interface.2]))] ++
        ("scsi".toList ++ []) :: [numbers '_' [host, channel, target, lun]] := by
  rw [mountTag_eq hT, List.splitOn_append_cons_self, List.splitOn_append_cons_self,
    List.splitOn_eq_singleton hyphen_notMem_usbWord, splitOn_place T]
  simp

/-- The words of a text that begins with a socket's tag, up to the one that begins with `scsi`. -/
theorem splitOn_matched (hU : U.WellFormed) {a b rest first : Str} {more : List Str} (ha : '-' ∉ a)
    (hb : '-' ∉ b) (hfirst : ("scsi".toList ++ rest).splitOn '-' = ("scsi".toList ++ first) :: more) :
    ((U.text false).map tagChar ++
        '_' :: (a ++ '_' :: (b ++ '-' :: ("scsi".toList ++ rest)))).splitOn '-' =
      (U.controller.map tagChar).splitOn '-' ++
        [usbWord false, numbers '_' (0 :: U.ports) ++ '_' :: (a ++ '_' :: b)] ++
        ("scsi".toList ++ first) :: more := by
  have hplace : '-' ∉ numbers '_' (0 :: U.ports) ++ '_' :: (a ++ '_' :: b) := by
    simp only [List.mem_append, List.mem_cons, not_or]
    exact ⟨hyphen_notMem_numbers, by decide, ha, by decide, hb⟩
  have hregroup : (U.text false).map tagChar ++
        '_' :: (a ++ '_' :: (b ++ '-' :: ("scsi".toList ++ rest))) =
      U.controller.map tagChar ++ '-' :: (usbWord false ++ '-' ::
        ((numbers '_' (0 :: U.ports) ++ '_' :: (a ++ '_' :: b)) ++ '-' :: ("scsi".toList ++ rest))) := by
    rw [map_tagChar_text hU]
    simp
  rw [hregroup, List.splitOn_append_cons_self, List.splitOn_append_cons_self,
    List.splitOn_append_cons_self, List.splitOn_eq_singleton hyphen_notMem_usbWord,
    List.splitOn_eq_singleton hplace, hfirst]
  simp

theorem sameTag_of_match (hT : T.WellFormed) (hU : U.WellFormed) {suffix : Str}
    (hsuffix : scsiSuffix suffix = true)
    (h : T.mountTag false interface host channel target lun =
      (U.text false).map tagChar ++ suffix) : SameTag T U := by
  obtain ⟨a, b, rest, ha, hb, ha', hb', rfl⟩ := scsiSuffix_spec hsuffix
  obtain ⟨first, more, hfirst⟩ := @splitOn_append_of_notMem "scsi".toList rest '-' (by decide)
  have hwords := congrArg (List.takeWhile fun w => !"scsi".toList.isPrefixOf w)
    ((splitOn_mountTag hT).symm.trans
      ((congrArg (List.splitOn '-') h).trans (splitOn_matched hU ha' hb' hfirst)))
  have hscsi : ¬"scsi".toList <+: usbWord false := by decide
  have hzero : (numbers '_' (0 :: (T.ports ++ [interface.1, interface.2]))).head? = some '0' := by
    have hhead := head_numbers_zero (T.ports ++ [interface.1, interface.2]) []
    rwa [List.append_nil] at hhead
  rw [takeWhile_words (scsi_words hT) hscsi hzero,
    takeWhile_words (scsi_words hU) hscsi (head_numbers_zero _ _)] at hwords
  obtain ⟨hcontroller, hlast⟩ := List.append_inj' hwords rfl
  refine ⟨?_, ?_⟩
  · have hports := congrArg (List.splitOn '_') (List.cons.inj (List.cons.inj hlast).2).1
    rw [splitOn_numbers (by decide) (by simp), List.splitOn_append_cons_self,
      List.splitOn_append_cons_self, splitOn_numbers (by decide) (by simp),
      List.splitOn_eq_singleton ha, List.splitOn_eq_singleton hb, List.map_cons, List.map_cons,
      List.map_append, List.cons_append] at hports
    have hchain := (List.append_inj' (List.cons.inj hports).2 rfl).1
    exact List.map_injective_iff.mpr toDigits_injective hchain
  · have hjoin := congrArg (List.intercalate ['-']) hcontroller
    rwa [List.intercalate_splitOn, List.intercalate_splitOn] at hjoin

theorem mount_matches_iff (hT : T.WellFormed) (hU : U.WellFormed) (dir : Str) {v2' : Bool} :
    mountMatchesTopology (dir ++ '/' :: T.mountTag v2 interface host channel target lun)
      (U.text v2') = some true ↔ SameTag T U := by
  have hbase : basename (dir ++ '/' :: T.mountTag v2 interface host channel target lun) =
      T.mountTag v2 interface host channel target lun := by
    refine basename_join ?_
    rw [Topology.mountTag, (tidy_drive hT).idPathTag]
    exact slash_notMem_tag _
  rw [mountMatchesTopology, topologyTagPrefix_text hU, hbase, usbAlias_mountTag hT, Option.map_some,
    Option.some.injEq, Option.any_eq_true]
  constructor
  · intro hmatch
    obtain ⟨suffix, hafter, hsuffix⟩ := hmatch
    exact sameTag_of_match hT hU hsuffix (after_eq_some.mp hafter)
  · intro hsame
    have hline : '\n' ∉ numbers '_' [host, channel, target, lun] := by
      intro hmem
      rcases mem_numbers hmem with he | hdigit
      · exact absurd he (by decide)
      · exact absurd hdigit (by decide)
    refine ⟨_, after_eq_some.mpr ?_, scsiSuffix_of_numbers interface.1 interface.2 hline⟩
    rw [mountTag_eq hT, map_tagChar_text hU, hsame.1, hsame.2]
    simp

end Sockets

/-- The drive of a board on one socket is taken for one of another exactly if both have the same
chain of ports and controllers of one tag, and no mount is returned but one that is alone. -/
theorem bootsel_mount_matched {T U : Topology} (hT : T.WellFormed) (hU : U.WellFormed)
    (dir : Str) (v2 v2' : Bool) (interface : Nat × Nat) (host channel target lun : Nat) :
    (mountMatchesTopology (dir ++ '/' :: T.mountTag v2 interface host channel target lun)
      (U.text v2') = some true ↔ SameTag T U) ∧
    ∀ topology looks mount, mountForTopology topology looks = some (.ok mount) →
      ∃ look ∈ looks, matchingMounts (bootselScan look.view) topology = [mount] :=
  ⟨mount_matches_iff hT hU dir, fun _ _ _ h => mountForTopology_ok h⟩

/-- A port of a Raspberry Pi's controller. -/
def socket (ports : List Nat) : Topology := ⟨"platform-fd880000.usb".toList, ports⟩

theorem wellFormed_socket : (socket [1]).WellFormed ∧ (socket [1, 1]).WellFormed := by
  constructor
  all_goals
    refine ⟨tidy_of_ends (by decide +kernel) (by decide) (by decide), by decide +kernel,
      by decide +kernel, by decide +kernel, by decide +kernel, by decide +kernel⟩

theorem bootsel_mount_matched_ports :
    mountMatchesTopology ("/media/pi/BOOTSEL/by-path".toList ++ '/' ::
      (socket [1, 1]).mountTag true (1, 0) 0 0 0 0) ((socket [1]).text false) ≠ some true := by
  intro hmatch
  have h := (bootsel_mount_matched wellFormed_socket.2 wellFormed_socket.1
    "/media/pi/BOOTSEL/by-path".toList true false (1, 0) 0 0 0 0).1.mp hmatch
  exact absurd h.1 (by decide)

/-- Two controllers whose names differ in a character that the tag does not hold. -/
theorem two_controllers_one_tag : ∃ T U : Topology, T.WellFormed ∧ U.WellFormed ∧ T ≠ U ∧
    mountMatchesTopology ("/media/pi/BOOTSEL/by-path".toList ++ '/' ::
      T.mountTag false (1, 0) 0 0 0 0) (U.text false) = some true := by
  have hU : Topology.WellFormed ⟨"platform-fd880000:usb".toList, [1]⟩ :=
    ⟨tidy_of_ends (by decide +kernel) (by decide) (by decide), by decide +kernel,
      by decide +kernel, by decide +kernel, by decide +kernel, by decide +kernel⟩
  refine ⟨socket [1], _, wellFormed_socket.1, hU, by decide, ?_⟩
  exact (mount_matches_iff wellFormed_socket.1 hU _).mpr ⟨rfl, by decide⟩

end McuUpdater.Bootsel
