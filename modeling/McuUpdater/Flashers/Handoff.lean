import McuUpdater.Discovery.SerialTopology
import McuUpdater.Flashers.Bootsel

/-! `flashers/bootsel.py`: the write that goes on with the socket a helper handed it. -/
namespace McuUpdater.Flashers
open PyText Bootsel

/-- The write goes on with what its helper's request came to. -/
def Handoff {ε : Type} (result : Option (Except ε Str)) (write : BootselCall) : Prop :=
  ∃ handed, result = some handed ∧ write.requester = some handed.toOption

section Handoffs
variable {ε : Type} {result : Option (Except ε Str)} {write : BootselCall} {mount : Str}
  {landed : Option (List UInt8)} {T U : Topology} {v2 : Bool} {interface : Nat × Nat}
  {host channel target lun : Nat}

theorem copied_of_handoff (h : Handoff result write)
    (hcopy : .copy mount landed ∈ (bootselWrite write).effects) :
    ∃ topology, result = some (.ok topology) ∧
      ∃ look ∈ write.looks, matchingMounts (bootselScan look.view) topology = [mount] := by
  obtain ⟨handed, hresult, hrequester⟩ := h
  rcases aimed_of_copy hcopy with ⟨hnone, -⟩ | ⟨topology, hsome, hlook⟩
  · rw [hnone] at hrequester
    cases hrequester
  · rw [hsome] at hrequester
    cases handed with
    | error e => cases hrequester
    | ok t =>
      cases hrequester
      exact ⟨_, hresult, hlook⟩

theorem sameTag_of_handoff (h : Handoff result write) (hT : T.WellFormed) (hU : U.WellFormed)
    (hsocket : ∀ topology, result = some (.ok topology) → topology = U.text false) {dir : Str}
    (hcopy : .copy (dir ++ '/' :: T.mountTag v2 interface host channel target lun) landed ∈
      (bootselWrite write).effects) : SameTag T U := by
  obtain ⟨topology, hresult, look, -, hmatch⟩ := copied_of_handoff h hcopy
  have hmem : dir ++ '/' :: T.mountTag v2 interface host channel target lun ∈
      matchingMounts (bootselScan look.view) topology := by rw [hmatch]; simp
  rw [hsocket topology hresult] at hmem
  exact (mount_matches_iff hT hU dir).mp (by simpa [matchingMounts] using (List.mem_filter.mp hmem).2)

end Handoffs

/-! ## Two boards of one hub -/

/-- The by-path directory where this tty is on the second port of a hub. -/
def hubByPath (tty : Str) : ByPathView where
  names := some [(socket [1, 1]).serialName true (1, 0) none]
  samefile _ port := some (decide (port = tty))

/-- The volume of a board on the hub's own socket. -/
def neighbour : Str :=
  "/media/pi/BOOTSEL/by-path".toList ++ '/' :: (socket [1]).mountTag true (1, 0) 0 0 0 0

def neighbourView : BootselView where
  roots := ["/media/pi".toList]
  byPath _ := [neighbour]
  marked mount := decide (mount = neighbour)

/-- A write for the board on the second port, while only the other one is mounted. -/
def hubWrite : BootselCall where
  dryRun := false
  imageExists := true
  data := none
  requester := some (some ((socket [1, 1]).text false))
  present := []
  view := neighbourView
  looks := [⟨neighbourView, true⟩]
  copy _ := ⟨⟨[1], true, true, fun _ => false, [], false, false⟩, true, ⟨none, none, none⟩, []⟩

theorem hubByPath_topology (tty : Str) :
    serialTopologyFor (hubByPath tty) tty = .ok ((socket [1, 1]).text false) := by
  refine serialTopologyFor_ok.mpr
    ⟨_, rfl, ⟨_, List.mem_singleton_self _, by simp [hubByPath]⟩, fun name hname _ => ?_⟩
  rw [List.mem_singleton.mp hname]
  exact normalize_serialName wellFormed_socket.2

theorem hubByPath_onSocket (tty port : Str) : (hubByPath tty).OnSocket port (socket [1, 1]) :=
  fun _ hnames _ hname _ =>
    ⟨true, (1, 0), none, by cases hnames; exact List.mem_singleton.mp hname⟩

end McuUpdater.Flashers
