import Mathlib.Data.List.Perm.Basic
import Mathlib.Data.List.Perm.Subperm

/-!
# A network that loses and reorders

Something is said, and what is said goes out as packets to those who are listening.  A
packet in flight arrives or is lost, in any order.  `delivered` are the packets that have
arrived, in the order of their arrival.

All packets of what is said at one time have one number.  `Network.Intact` says that no
number is in flight or delivered twice; it is kept if no more than one is listening.
-/

namespace RoqWhitebit.General

structure Packet (α : Type*) where
  number : Nat
  content : α
  deriving DecidableEq

structure Network (α : Type*) where
  next : Nat := 0
  inFlight : List (Packet α) := []
  delivered : List (Packet α) := []

namespace Network

variable {α : Type*}

/-- What is said goes out, one packet for everyone who is listening. -/
def send (n : Network α) (contents : List α) : Network α :=
  { n with
    next := n.next + 1
    inFlight := n.inFlight ++ contents.map fun content => { number := n.next, content := content } }

/-- A packet in flight is gone. -/
def lose (n : Network α) (i : Nat) : Network α :=
  { n with
    inFlight := n.inFlight.eraseIdx i }

/-- A packet in flight arrives. -/
def deliver (n : Network α) (i : Nat) : Network α :=
  match n.inFlight[i]? with
  | none => n
  | some p => { n.lose i with delivered := n.delivered ++ [p] }

/-- Every packet that has not been lost. -/
def packets (n : Network α) : List (Packet α) := n.delivered ++ n.inFlight

/-- No number occurs twice, and those to come are new. -/
structure Intact (n : Network α) : Prop where
  once : (n.packets.map Packet.number).Nodup
  before : ∀ p ∈ n.packets, p.number < n.next

theorem intact_empty : Intact ({} : Network α) where
  once := List.nodup_nil
  before := nofun

theorem Intact.send {n : Network α} (h : n.Intact) {contents : List α}
    (hOne : contents.length ≤ 1) : (n.send contents).Intact := by
  have hPackets : (n.send contents).packets =
      n.packets ++ contents.map fun content => { number := n.next, content := content } :=
    (List.append_assoc ..).symm
  constructor
  · rw [hPackets, List.map_append]
    refine List.nodup_append.mpr ⟨h.once, ?_, ?_⟩
    · match contents, hOne with
      | [], _ => exact List.nodup_nil
      | [content], _ => exact List.pairwise_singleton _ _
    · intro a ha b hb hSame
      obtain ⟨p, hp, rfl⟩ := List.mem_map.mp ha
      obtain ⟨q, hq, rfl⟩ := List.mem_map.mp hb
      obtain ⟨content, -, rfl⟩ := List.mem_map.mp hq
      exact absurd hSame (Nat.ne_of_lt (h.before p hp))
  · intro p hp
    show p.number < n.next + 1
    rw [hPackets] at hp
    cases List.mem_append.mp hp with
    | inl hOld => exact Nat.lt_succ_of_lt (h.before p hOld)
    | inr hNew =>
        obtain ⟨content, -, rfl⟩ := List.mem_map.mp hNew
        exact Nat.lt_succ_self n.next

/-- Packets may go, or go elsewhere. -/
theorem Intact.of_subperm {n n' : Network α} (h : n.Intact) (hNext : n'.next = n.next)
    (hPackets : n'.packets.Subperm n.packets) : n'.Intact where
  once := by
    obtain ⟨kept, hPerm, hSublist⟩ := hPackets
    exact (hPerm.map Packet.number).nodup_iff.mp (h.once.sublist (hSublist.map Packet.number))
  before p hp := hNext ▸ h.before p (hPackets.subset hp)

theorem subperm_lose (n : Network α) (i : Nat) : (n.lose i).packets.Subperm n.packets :=
  ((List.eraseIdx_sublist n.inFlight i).append_left n.delivered).subperm

theorem subperm_deliver (n : Network α) (i : Nat) :
    (n.deliver i).packets.Subperm n.packets := by
  unfold deliver
  cases hGet : n.inFlight[i]? with
  | none => exact List.Subperm.refl _
  | some p =>
      have hPerm : (p :: n.inFlight.eraseIdx i).Perm n.inFlight := by
        obtain ⟨hLt, rfl⟩ := List.getElem?_eq_some_iff.mp hGet
        exact List.getElem_cons_eraseIdx_perm hLt
      show (n.delivered ++ [p] ++ n.inFlight.eraseIdx i).Subperm (n.delivered ++ n.inFlight)
      rw [List.append_assoc, List.singleton_append]
      exact (hPerm.append_left n.delivered).subperm

theorem next_deliver (n : Network α) (i : Nat) : (n.deliver i).next = n.next := by
  unfold deliver
  cases n.inFlight[i]? with
  | none => rfl
  | some p => rfl

theorem Intact.lose {n : Network α} (h : n.Intact) (i : Nat) : (n.lose i).Intact :=
  h.of_subperm rfl (subperm_lose n i)

theorem Intact.deliver {n : Network α} (h : n.Intact) (i : Nat) : (n.deliver i).Intact :=
  h.of_subperm (next_deliver n i) (subperm_deliver n i)

/-- No number is delivered twice. -/
theorem Intact.delivered_once {n : Network α} (h : n.Intact) :
    (n.delivered.map Packet.number).Nodup :=
  h.once.sublist ((List.sublist_append_left _ _).map Packet.number)

/-- What holds of the packets that are there and of those that are sent holds of all. -/
theorem forall_send {P : α → Prop} {n : Network α} (h : ∀ p ∈ n.packets, P p.content)
    {contents : List α} (hNew : ∀ content ∈ contents, P content) :
    ∀ p ∈ (n.send contents).packets, P p.content := by
  intro p hp
  cases List.mem_append.mp hp with
  | inl hDelivered => exact h p (List.mem_append_left _ hDelivered)
  | inr hFlight =>
      cases List.mem_append.mp hFlight with
      | inl hOld => exact h p (List.mem_append_right _ hOld)
      | inr hSent =>
          obtain ⟨content, hContent, rfl⟩ := List.mem_map.mp hSent
          exact hNew content hContent

end Network

end RoqWhitebit.General
