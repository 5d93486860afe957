import FoundingSales.Library.Matchings
import FoundingSales.Text

/-!
The reschedule chains of a listing of bookings.

Proved here:

* `linksOf_named`: a link that is kept is one that a listed booking names;
* `Chained.step`: what one booking keeps of the chains so far;
* `booking_chains_partition`: every listing is partitioned into chains, and bookings joined by kept
  links in a group of at most fifty are in one.
-/

namespace FoundingSales.Meetings.Reconcile

open Matchings

/-- A listed booking, as far as its links. -/
structure CalcomBooking where
  uid : JsString
  rescheduledFromUid : Option JsString
  rescheduledToUid : Option JsString
  deriving DecidableEq

structure BookingChain where
  uids : List JsString
  /-- The listed booking of a uid. -/
  bookings : JsString → Option CalcomBooking
  successor : Option JsString

def maxChain : Nat := 50

/-- `new Map(bookings.map(booking => [booking.uid, booking]))` -/
def byUid (bookings : List CalcomBooking) (uid : JsString) : Option CalcomBooking :=
  bookings.reverse.find? fun booking => booking.uid = uid

/-- The links of one booking: to the one that replaces it, and from the one it replaces. -/
def linkBooking (links : Matching JsString) (booking : CalcomBooking) : Matching JsString :=
  let links := match booking.rescheduledToUid with
    | some to_ => links.add booking.uid to_
    | none => links
  match booking.rescheduledFromUid with
  | some from_ => links.add from_ booking.uid
  | none => links

/-- The links of a listing; the first that names a uid on a side is kept. -/
def linksOf (bookings : List CalcomBooking) : Matching JsString :=
  bookings.foldl linkBooking .empty

/-- The chain of a booking that is in none yet. -/
def chainOf (bookings : List CalcomBooking) (covered : List JsString) (booking : CalcomBooking) :
    BookingChain :=
  let links := linksOf bookings
  let listed uid := (byUid bookings uid).isSome
  -- Forward to the newest listed booking, then back to the oldest uid named.
  let tail := links.forward (fun after => !listed after || after ∈ covered || after = booking.uid)
    maxChain booking.uid
  let uids := links.backward (fun uid => uid ∈ covered) listed maxChain [tail]
  { uids := uids
    bookings := byUid bookings
    successor := (links.next tail).filter fun after => !listed after && after ∉ uids }

/-- The chains so far, and the uids they cover. -/
structure Chains where
  covered : List JsString
  chains : List BookingChain

def Chains.add (bookings : List CalcomBooking) (s : Chains) (booking : CalcomBooking) : Chains :=
  if booking.uid ∈ s.covered then s
  else
    let chain := chainOf bookings s.covered booking
    ⟨s.covered ++ chain.uids, s.chains ++ [chain]⟩

def bookingChains (bookings : List CalcomBooking) : List BookingChain :=
  (bookings.foldl (Chains.add bookings) ⟨[], []⟩).chains

/-! ## Links -/

section Links

variable {bookings : List CalcomBooking} {links : Matching JsString} {booking : CalcomBooking}
  {a b uid : JsString}

/-- A listed booking names a link. -/
def Named (bookings : List CalcomBooking) (a b : JsString) : Prop :=
  ∃ booking ∈ bookings, booking.uid = a ∧ booking.rescheduledToUid = some b ∨
    booking.rescheduledFromUid = some a ∧ booking.uid = b

/-- The uid of a listed booking. -/
def Listed (bookings : List CalcomBooking) (uid : JsString) : Prop :=
  ∃ booking ∈ bookings, booking.uid = uid

theorem byUid_isSome : (byUid bookings uid).isSome = true ↔ Listed bookings uid := by
  unfold byUid Listed
  rw [List.find?_isSome]
  simp

theorem of_linkBooking (h : (linkBooking links booking).next a = some b) :
    links.next a = some b ∨ booking.uid = a ∧ booking.rescheduledToUid = some b ∨
      booking.rescheduledFromUid = some a ∧ booking.uid = b := by
  unfold linkBooking at h
  dsimp only at h
  have hto : ∀ {a b}, (match booking.rescheduledToUid with
      | some to_ => links.add booking.uid to_
      | none => links).next a = some b →
      links.next a = some b ∨ booking.uid = a ∧ booking.rescheduledToUid = some b := by
    intro a b h
    split at h
    · next to_ hto =>
      rcases Matching.of_add h with h | ⟨rfl, rfl⟩
      · exact .inl h
      · exact .inr ⟨rfl, hto⟩
    · exact .inl h
  split at h
  · next from_ hfrom =>
    rcases Matching.of_add h with h | ⟨rfl, rfl⟩
    · exact (hto h).imp id .inl
    · exact .inr (.inr ⟨hfrom, rfl⟩)
  · exact (hto h).imp id .inl

/-- A link that is kept is one that a listed booking names. -/
theorem linksOf_named (h : (linksOf bookings).next a = some b) : Named bookings a b := by
  induction bookings using List.reverseRecOn with
  | nil => cases h
  | append_singleton bookings booking ih =>
    unfold linksOf at h
    rw [List.foldl_append] at h
    rcases of_linkBooking h with h | h
    · obtain ⟨other, hother, hnamed⟩ := ih h
      exact ⟨other, List.mem_append_left _ hother, hnamed⟩
    · exact ⟨booking, by simp, h⟩

end Links

/-! ## One chain -/

section Chain

variable {bookings : List CalcomBooking} {covered : List JsString} {booking : CalcomBooking}

/-- What a chain is of. -/
structure BookingChain.Good (bookings : List CalcomBooking) (chain : BookingChain) : Prop where
  walk : (linksOf bookings).Walk chain.uids
  listed : ∀ uid ∈ chain.uids.tail, Listed bookings uid
  successor : ∀ uid, chain.successor = some uid → uid ∉ chain.uids ∧ ¬ Listed bookings uid ∧
    ∃ hne : chain.uids ≠ [], (linksOf bookings).next (chain.uids.getLast hne) = some uid

/-- A chain has its booking, and nothing that is covered. -/
theorem chainOf_spec (hbooking : booking ∈ bookings) (hfree : booking.uid ∉ covered) :
    (chainOf bookings covered booking).Good bookings ∧
      (chainOf bookings covered booking).uids.Nodup ∧
      booking.uid ∈ (chainOf bookings covered booking).uids ∧
      ∀ uid ∈ (chainOf bookings covered booking).uids, uid ∉ covered := by
  obtain ⟨path, hwalk, hlast, hpath, hlength⟩ := (linksOf bookings).forward_spec
    (fun after => !(byUid bookings after).isSome || after ∈ covered || after = booking.uid)
    maxChain booking.uid
  simp only [Bool.or_eq_false_iff, Bool.not_eq_false', decide_eq_false_iff_not] at hpath
  have hnodup : (booking.uid :: path).Nodup := hwalk.nodup fun hmem => (hpath _ hmem).2 rfl
  have hlisted : ∀ uid ∈ booking.uid :: path, (byUid bookings uid).isSome = true := by
    intro uid huid
    rcases List.mem_cons.1 huid with rfl | huid
    · exact byUid_isSome.2 ⟨booking, hbooking, rfl⟩
    · exact (hpath uid huid).1.1
  have hopen : ∀ uid ∈ booking.uid :: path, uid ∉ covered := by
    intro uid huid
    rcases List.mem_cons.1 huid with rfl | huid
    · exact hfree
    · exact (hpath uid huid).1.2
  -- The walk back takes the same uids first.
  generalize hfront : (booking.uid :: path).dropLast = front
  generalize hend : (booking.uid :: path).getLast (by simp) = tail at hlast
  have hsplit : booking.uid :: path = front ++ [tail] := by
    rw [← hfront, ← hend, List.dropLast_append_getLast]
  rw [hsplit] at hwalk hnodup hlisted hopen
  have hfrontLength : front.length ≤ maxChain := by
    rw [← hfront]
    simpa using hlength
  obtain ⟨rest, hrest⟩ := Nat.exists_eq_add_of_le hfrontLength
  have hretrace : (linksOf bookings).backward (fun uid => uid ∈ covered)
      (fun uid => (byUid bookings uid).isSome) (front.length + rest) [tail] =
        (linksOf bookings).backward (fun uid => uid ∈ covered)
          (fun uid => (byUid bookings uid).isSome) rest (front ++ [tail]) :=
    Matching.backward_retrace (by simp) hwalk hnodup
      (fun uid huid => by simpa using hopen uid (List.mem_append_left _ huid))
      fun uid huid => hlisted uid (List.mem_append_left _ huid)
  have hback : ∃ more, (linksOf bookings).backward (fun uid => uid ∈ covered)
      (fun uid => (byUid bookings uid).isSome) rest (front ++ [tail]) = more ++ (front ++ [tail]) ∧
        (linksOf bookings).Walk (more ++ (front ++ [tail])) ∧ (more ++ (front ++ [tail])).Nodup ∧
        (∀ uid ∈ more, decide (uid ∈ covered) = false) ∧
        ∀ uid ∈ (more ++ (front ++ [tail])).tail, (byUid bookings uid).isSome = true :=
    Matching.backward_spec (by simp) hwalk hnodup hlisted
  obtain ⟨more, hmore, hmoreWalk, hmoreNodup, hmoreFree, hmoreListed⟩ := hback
  have huids : (chainOf bookings covered booking).uids = more ++ (front ++ [tail]) := by
    unfold chainOf
    dsimp only
    rw [← hlast, hrest, hretrace, hmore]
  refine ⟨⟨?_, ?_, ?_⟩, ?_, ?_, ?_⟩
  · rw [huids]
    exact hmoreWalk
  · intro uid huid
    rw [huids] at huid
    exact byUid_isSome.1 (hmoreListed uid huid)
  · intro uid hsuccessor
    have hsuccessor' : ((linksOf bookings).next tail).filter (fun after =>
        !(byUid bookings after).isSome && after ∉ (chainOf bookings covered booking).uids) = some uid := by
      rw [hlast]
      exact hsuccessor
    obtain ⟨hnext, hnew⟩ := Option.filter_eq_some_iff.1 hsuccessor'
    simp only [Bool.and_eq_true, Bool.not_eq_true', decide_eq_true_eq] at hnew
    refine ⟨hnew.2, fun hlistedUid => ?_, ?_, ?_⟩
    · rw [byUid_isSome.2 hlistedUid] at hnew
      exact Bool.false_ne_true hnew.1.symm
    · rw [huids]
      simp
    · simp only [huids]
      simpa using hnext
  · rw [huids]
    exact hmoreNodup
  · rw [huids, ← hsplit]
    simp
  · intro uid huid
    rw [huids] at huid
    rcases List.mem_append.1 huid with huid | huid
    · simpa using hmoreFree uid huid
    · exact hopen uid huid

/-- A group of which nothing is covered is part of the chain of each of its bookings. -/
theorem chainOf_group {group : List JsString} (h : (linksOf bookings).Group (Listed bookings) group)
    (hlength : group.length ≤ maxChain) (hbooking : booking.uid ∈ group)
    (hfree : ∀ uid ∈ group, uid ∉ covered) :
    group <:+: (chainOf bookings covered booking).uids := by
  obtain ⟨front, back, rfl⟩ := List.append_of_mem hbooking
  have hne : front ++ booking.uid :: back ≠ [] := by simp
  have hlast : (booking.uid :: back).getLast (by simp) = (front ++ booking.uid :: back).getLast hne :=
    (List.getLast_append_of_ne_nil (l := front) hne (by simp)).symm
  have hforward : (linksOf bookings).forward (fun after =>
      !(byUid bookings after).isSome || after ∈ covered || after = booking.uid) maxChain booking.uid =
        (front ++ booking.uid :: back).getLast hne := by
    rw [← hlast]
    apply Matching.forward_retrace
    · exact h.walk.of_infix (List.suffix_append front _).isInfix
    · intro uid huid
      have hmem : uid ∈ front ++ booking.uid :: back := by simp [huid]
      have hnot : uid ≠ booking.uid := by
        rintro rfl
        exact (List.nodup_cons.1 (List.nodup_append.1 h.nodup).2.1).1 huid
      have hopen := hfree uid hmem
      have hlisted := byUid_isSome.2 (h.all uid hmem)
      simp [hnot, hopen, hlisted]
    · rw [List.length_append, List.length_cons] at hlength
      omega
    · intro uid hnext
      rw [hlast] at hnext
      have hlisted : (byUid bookings uid).isSome = false := by
        rw [← Bool.not_eq_true, byUid_isSome]
        exact h.last hne uid hnext
      simp [hlisted]
  generalize front ++ booking.uid :: back = group at h hlength hfree hne hlast hforward
  have hsplit : group.dropLast ++ [group.getLast hne] = group := List.dropLast_append_getLast hne
  have hfront : ∀ uid ∈ group.dropLast, uid ∈ group := fun uid => List.mem_of_mem_dropLast
  have hfrontLength : group.dropLast.length ≤ maxChain := by
    rw [List.length_dropLast]
    omega
  obtain ⟨rest, hrest⟩ := Nat.exists_eq_add_of_le hfrontLength
  have hretrace : (linksOf bookings).backward (fun uid => uid ∈ covered)
      (fun uid => (byUid bookings uid).isSome) (group.dropLast.length + rest) [group.getLast hne] =
        (linksOf bookings).backward (fun uid => uid ∈ covered)
          (fun uid => (byUid bookings uid).isSome) rest (group.dropLast ++ [group.getLast hne]) :=
    Matching.backward_retrace (by simp) (by rw [hsplit]; exact h.walk) (by rw [hsplit]; exact h.nodup)
      (fun uid huid => by simpa using hfree uid (hfront uid huid))
      fun uid huid => byUid_isSome.2 (h.all uid (hfront uid huid))
  have hback : ∃ more, (linksOf bookings).backward (fun uid => uid ∈ covered)
      (fun uid => (byUid bookings uid).isSome) rest group = more ++ group ∧
        (linksOf bookings).Walk (more ++ group) ∧ (more ++ group).Nodup ∧
        (∀ uid ∈ more, decide (uid ∈ covered) = false) ∧
        ∀ uid ∈ (more ++ group).tail, (byUid bookings uid).isSome = true :=
    Matching.backward_spec hne h.walk h.nodup fun uid huid => byUid_isSome.2 (h.all uid huid)
  obtain ⟨more, hmore, -⟩ := hback
  have huids : (chainOf bookings covered booking).uids = more ++ group := by
    unfold chainOf
    dsimp only
    rw [hforward, hrest, hretrace, hsplit, hmore]
  rw [huids]
  exact (List.suffix_append more group).isInfix

end Chain

/-! ## The whole listing -/

section Listing

variable {bookings done : List CalcomBooking} {s : Chains} {booking : CalcomBooking}

/-- The chains of the bookings so far. -/
structure Chained (bookings done : List CalcomBooking) (s : Chains) : Prop where
  covered : s.covered = s.chains.flatMap BookingChain.uids
  good : ∀ chain ∈ s.chains, chain.Good bookings
  nodup : s.covered.Nodup
  all : ∀ booking ∈ done, booking.uid ∈ s.covered
  groups : ∀ group, (linksOf bookings).Group (Listed bookings) group → group.length ≤ maxChain →
    (∃ chain ∈ s.chains, group <:+: chain.uids) ∨ ∀ uid ∈ group, uid ∉ s.covered

/-- What one booking keeps of the chains so far. -/
theorem Chained.step (h : Chained bookings done s) (hbooking : booking ∈ bookings) :
    Chained bookings (done ++ [booking]) (s.add bookings booking) := by
  unfold Chains.add
  by_cases hcovered : booking.uid ∈ s.covered
  · rw [if_pos hcovered]
    refine ⟨h.covered, h.good, h.nodup, ?_, h.groups⟩
    intro other hother
    rcases List.mem_append.1 hother with hother | hother
    · exact h.all other hother
    · rw [List.mem_singleton.1 hother]
      exact hcovered
  · rw [if_neg hcovered]
    obtain ⟨hgood, hnodup, hmem, hfree⟩ := chainOf_spec hbooking hcovered
    constructor
    · show s.covered ++ _ = (s.chains ++ [_]).flatMap _
      rw [List.flatMap_append, ← h.covered, List.flatMap_singleton]
    · intro chain hchain
      rcases List.mem_append.1 hchain with hchain | hchain
      · exact h.good chain hchain
      · rw [List.mem_singleton.1 hchain]
        exact hgood
    · refine List.nodup_append.2 ⟨h.nodup, hnodup, ?_⟩
      rintro uid huid _ huid' rfl
      exact hfree uid huid' huid
    · intro other hother
      rcases List.mem_append.1 hother with hother | hother
      · exact List.mem_append_left _ (h.all other hother)
      · rw [List.mem_singleton.1 hother]
        exact List.mem_append_right _ hmem
    · intro group hgroup hlength
      rcases h.groups group hgroup hlength with ⟨chain, hchain, hstands⟩ | hopen
      · exact .inl ⟨chain, List.mem_append_left _ hchain, hstands⟩
      · by_cases hin : booking.uid ∈ group
        · exact .inl ⟨_, by simp, chainOf_group hgroup hlength hin hopen⟩
        · right
          intro uid huid hmemUid
          rcases List.mem_append.1 hmemUid with hold | hnew
          · exact hopen uid huid hold
          · -- A chain that meets the group would have brought its booking into it.
            exact hin (hgroup.mem_of_walk hgood.walk hgood.listed huid hnew booking.uid hmem
              ⟨booking, hbooking, rfl⟩)

theorem chained (bookings : List CalcomBooking) :
    Chained bookings bookings (bookings.foldl (Chains.add bookings) ⟨[], []⟩) := by
  have hrun : ∀ done, (∀ booking ∈ done, booking ∈ bookings) →
      Chained bookings done (done.foldl (Chains.add bookings) ⟨[], []⟩) := by
    intro done
    induction done using List.reverseRecOn with
    | nil =>
      intro _
      exact ⟨rfl, nofun, List.nodup_nil, nofun, fun group _ _ => .inr fun uid _ => List.not_mem_nil⟩
    | append_singleton done booking ih =>
      intro hdone
      rw [List.foldl_append]
      exact (ih fun other hother => hdone other (List.mem_append_left _ hother)).step
        (hdone booking (by simp))
  exact hrun bookings fun _ h => h

/-- Two uids that follow one another in a chain. -/
def Consecutive (bookings : List CalcomBooking) (a b : JsString) : Prop :=
  ∃ chain ∈ bookingChains bookings, [a, b] <:+: chain.uids

theorem consecutive_next {a b : JsString} (h : Consecutive bookings a b) :
    (linksOf bookings).next a = some b := by
  obtain ⟨chain, hchain, hstands⟩ := h
  have hwalk := ((chained bookings).good chain hchain).walk.of_infix hstands
  exact (List.isChain_cons_cons.1 hwalk).1

/-- Every listing is partitioned into chains: each listed booking is in one chain and once; the uids
of a chain are joined by links that a booking names, of which each uid has one on each side; only the
first may be unlisted; bookings joined by kept links through listed ones, in a group that is acyclic
and of at most fifty, are in one chain in their order; and a successor is no uid of its chain. -/
theorem booking_chains_partition (bookings : List CalcomBooking) :
    ((bookingChains bookings).flatMap BookingChain.uids).Nodup ∧
    (∀ booking ∈ bookings, booking.uid ∈ (bookingChains bookings).flatMap BookingChain.uids) ∧
    (∀ a b, Consecutive bookings a b → Named bookings a b) ∧
    (∀ a b c, Consecutive bookings a b → Consecutive bookings a c → b = c) ∧
    (∀ a b c, Consecutive bookings a c → Consecutive bookings b c → a = b) ∧
    (∀ chain ∈ bookingChains bookings, ∀ uid ∈ chain.uids.tail, Listed bookings uid) ∧
    (∀ path, (linksOf bookings).Walk path → path ≠ [] → (∀ uid ∈ path, Listed bookings uid) →
      (∀ longer, path <:+: longer → (linksOf bookings).Walk longer →
        (∀ uid ∈ longer, Listed bookings uid) → longer.length ≤ maxChain) →
      ∃ chain ∈ bookingChains bookings, path <:+: chain.uids) ∧
    ∀ chain ∈ bookingChains bookings, ∀ uid, chain.successor = some uid → uid ∉ chain.uids := by
  have h := chained bookings
  refine ⟨h.covered ▸ h.nodup, fun booking hbooking => h.covered ▸ h.all booking hbooking,
    fun a b hab => linksOf_named (consecutive_next hab), ?_, ?_, fun chain hchain =>
      (h.good chain hchain).listed, ?_, fun chain hchain uid huid =>
        ((h.good chain hchain).successor uid huid).1⟩
  · intro a b c hab hac
    exact Option.some.inj ((consecutive_next hab).symm.trans (consecutive_next hac))
  · intro a b c hac hbc
    exact (linksOf bookings).next_inj (consecutive_next hac) (consecutive_next hbc)
  · intro path hwalk hne hlisted hbound
    obtain ⟨group, hpath, hgroup, hlength⟩ := hwalk.exists_group hne hlisted hbound
    rcases h.groups group hgroup hlength with ⟨chain, hchain, hstands⟩ | hopen
    · exact ⟨chain, hchain, hpath.trans hstands⟩
    · -- Every listed booking is covered.
      obtain ⟨uid, huid⟩ := List.exists_mem_of_ne_nil path hne
      obtain ⟨booking, hbooking, rfl⟩ := hlisted uid huid
      exact absurd (h.all booking hbooking) (hopen _ (hpath.mem huid))

end Listing

/-- A booking, the one that replaces it, and a third that says so too. -/
def forked : List CalcomBooking :=
  [⟨js "a", none, some (js "b")⟩, ⟨js "b", none, none⟩, ⟨js "c", some (js "a"), none⟩]

theorem booking_chains_partition_forked :
    ∃ chain ∈ bookingChains forked, [js "a", js "b"] <:+: chain.uids := by
  have hstarts : ∀ x y, (linksOf forked).next x = some y → x = js "a" ∧ y ≠ js "a" := by
    intro x y hlink
    obtain ⟨booking, hbooking, hnamed⟩ := linksOf_named hlink
    simp only [forked, List.mem_cons, List.not_mem_nil, or_false] at hbooking
    rcases hbooking with rfl | rfl | rfl
    · rcases hnamed with ⟨rfl, hto⟩ | ⟨hfrom, -⟩
      · cases hto
        exact ⟨rfl, by decide⟩
      · cases hfrom
    · rcases hnamed with ⟨-, hto⟩ | ⟨hfrom, -⟩
      · cases hto
      · cases hfrom
    · rcases hnamed with ⟨-, hto⟩ | ⟨hfrom, rfl⟩
      · cases hto
      · cases hfrom
        exact ⟨rfl, by decide⟩
  refine (booking_chains_partition forked).2.2.2.2.2.2.1 [js "a", js "b"] ?_ (by simp) ?_ ?_
  · exact List.isChain_pair.2 (by decide +kernel)
  · intro uid huid
    simp only [List.mem_cons, List.not_mem_nil, or_false] at huid
    rcases huid with rfl | rfl
    · exact ⟨⟨js "a", none, some (js "b")⟩, by decide, rfl⟩
    · exact ⟨⟨js "b", none, none⟩, by decide, rfl⟩
  · intro longer _ hwalk _
    match longer, hwalk with
    | [], _ => exact Nat.zero_le _
    | [_], _ => simp [maxChain]
    | [_, _], _ => simp [maxChain]
    | x :: y :: z :: rest, hwalk =>
      obtain ⟨hxy, hrest⟩ := List.isChain_cons_cons.1 hwalk
      exact absurd (hstarts y z (List.isChain_cons_cons.1 hrest).1).1 (hstarts x y hxy).2

/-- The third is joined to the first by the link it names, and is in a chain of its own. -/
theorem forked_apart : Named forked (js "a") (js "c") ∧
    (bookingChains forked).map BookingChain.uids = [[js "a", js "b"], [js "c"]] := by
  refine ⟨⟨⟨js "c", some (js "a"), none⟩, by decide +kernel, .inr ⟨rfl, rfl⟩⟩, ?_⟩
  decide +kernel

end FoundingSales.Meetings.Reconcile
