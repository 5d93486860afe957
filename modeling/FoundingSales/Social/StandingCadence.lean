import Mathlib.Data.List.Sort
import Mathlib.Data.List.ReduceOption
import FoundingSales.Library.Clocks
import FoundingSales.Contracts.LocalClock

/-!
The slots of a standing plan: for each entry of the weekly cadence the instant at which the
owner's clock shows that weekday of the week and that time. The instant is looked for among the
offsets that a grid of instants around it samples.

Proved here:
* `exists_sampled`: every offset the clock has within a day of a reading is sampled;
* `slotFor_spec`: a slot is the first instant that shows its time, and is left out when none does;
* `slots_first`: the slots of a whole cadence, and their order.
-/

namespace FoundingSales.Social

open Calendar Contracts.LocalClock

def hourMs : Int := 3600000

/-! ## Zones and entries -/

/-- The offsets of a zone, in whole minutes east of UTC, within a day. -/
structure StandingZone where
  offset : Int → Int
  within : ∀ t, -1440 ≤ offset t ∧ offset t ≤ 1440
  apart : ∀ s t, s < t → Clocks.Changes offset s → Clocks.Changes offset t → s + 7 * hourMs ≤ t

def StandingZone.wallClock (zone : StandingZone) (t : Int) : Int := t + zone.offset t * minuteMs

/-- An entry of a plan's cadence: Monday is 1, the time is `HH:MM`. -/
structure CadenceSlot where
  weekday : Nat
  hour : Nat
  minute : Nat
  weekday_pos : 1 ≤ weekday
  weekday_le : weekday ≤ 7
  hour_lt : hour < 24
  minute_lt : minute < 60
  deriving DecidableEq

/-- `a.weekday - b.weekday || a.time.localeCompare(b.time)` -/
def CadenceSlot.Before (a b : CadenceSlot) : Prop :=
  a.weekday < b.weekday ∨
    a.weekday = b.weekday ∧ (a.hour < b.hour ∨ a.hour = b.hour ∧ a.minute ≤ b.minute)

instance : DecidableRel CadenceSlot.Before := fun _ _ => inferInstanceAs (Decidable (_ ∨ _))

/-! ## The slots -/

/-- The fields the formats show. -/
structure ClockFields where
  year : Int
  month : Nat
  day : Int
  hour : Int
  minute : Int
  deriving DecidableEq

/-- `format.formatToParts` of a clock that shows `wall`. -/
def fieldsOf (wall : Int) : ClockFields :=
  let parts := partsOf wall
  ⟨parts.year, parts.month, parts.day, parts.hour, parts.minute⟩

/-- `Date.parse` of the fields as a text `YYYY-MM-DDTHH:MM:00Z`; the text of a year that has not
four digits is another. -/
def dateParse (fields : ClockFields) : Option Int :=
  if 1000 ≤ fields.year ∧ fields.year ≤ 9999 then
    some (dateUtc fields.year fields.month fields.day fields.hour fields.minute 0 0)
  else none

/-- The Monday of the local week, as the instant of its noon at UTC. -/
def standingWeek (instant : Int) (zone : StandingZone) : Option Int := do
  let noon ← dateParse { fieldsOf (zone.wallClock instant) with hour := 12, minute := 0 }
  let utcDay := (noon / dayMs + 4) % 7
  some (noon - (utcDay + 6) % 7 * dayMs)

structure StandingSlot where
  ordinal : Nat
  localWeek : Date
  publishAt : Int
  deriving DecidableEq

/-- `for (let hours = -36; hours <= 36; hours += 6)` -/
def sampleHours : List Int := (List.range 13).map fun step : Nat => 6 * (step : Int) - 36

/-- The offsets around a reading, in milliseconds. -/
def sampleOffsets (wall : Int) (zone : StandingZone) : Option (List Int) :=
  sampleHours.mapM fun hours =>
    let sample := wall + hours * hourMs
    (dateParse (fieldsOf (zone.wallClock sample))).map fun clock => clock - sample

/-- The first of the candidates that reads back, if any does; `none` where the code throws. -/
def slotFor (week : Int) (zone : StandingZone) (slot : CadenceSlot) : Option (Option Int) := do
  let target := dateOf (week / dayMs + epochDay + slot.weekday - 1)
  let desired : ClockFields := ⟨target.year, target.month, target.day, slot.hour, slot.minute⟩
  let wall ← dateParse desired
  let offsets ← sampleOffsets wall zone
  let candidates := (offsets.dedup.map fun offset => wall - offset).insertionSort (· ≤ ·)
  some (candidates.find? fun candidate => fieldsOf (zone.wallClock candidate) = desired)

def standingWeekSlots (instant : Int) (zone : StandingZone) (cadence : List CadenceSlot) :
    Option (List StandingSlot) := do
  let week ← standingWeek instant zone
  let slots ← ((cadence.insertionSort CadenceSlot.Before).zipIdx).mapM fun (slot, index) => do
    let publishAt ← slotFor week zone slot
    some (publishAt.map fun publishAt =>
      (⟨index + 1, dateOf (week / dayMs + epochDay), publishAt⟩ : StandingSlot))
  some slots.reduceOption

/-! ## Reading the fields back -/

theorem mapM_forall₂ {α β : Type*} {f : α → Option β} {R : α → β → Prop} {xs : List α}
    (h : ∀ x ∈ xs, ∃ y, f x = some y ∧ R x y) :
    ∃ ys, xs.mapM f = some ys ∧ List.Forall₂ R xs ys := by
  induction xs with
  | nil => exact ⟨[], rfl, .nil⟩
  | cons x xs ih =>
    obtain ⟨y, hy, hxy⟩ := h x List.mem_cons_self
    obtain ⟨ys, hys, hall⟩ := ih fun x' hx' => h x' (List.mem_cons_of_mem _ hx')
    exact ⟨y :: ys, by simp [List.mapM_cons, hy, hys], .cons hxy hall⟩

theorem eq_map_of_forall₂ {α β : Type*} {g : α → β} {xs : List α} {ys : List β}
    (h : List.Forall₂ (fun x y => y = g x) xs ys) : ys = xs.map g := by
  induction h with
  | nil => rfl
  | cons heq _ ih => rw [List.map_cons, ← heq, ← ih]

/-- The year of a day, of four digits. -/
def FourDigits (day : Int) : Prop := 1000 ≤ yearOf day ∧ yearOf day ≤ 9999

theorem dateUtc_of {year day hour minute : Int} {month : Nat} (hyear : 100 ≤ year) :
    dateUtc year month day hour minute 0 0
      = (dayNumber year month day - epochDay) * dayMs + hour * 3600000 + minute * minuteMs := by
  have hfull : fullYear year = year := by
    apply if_neg
    simp only [Bool.and_eq_true, decide_eq_true_eq]
    omega
  unfold dateUtc
  rw [hfull]
  omega

/-- The fields of a clock, with another time of day. -/
theorem dateParse_at {wall hour minute : Int} (h : FourDigits (wall / dayMs + epochDay)) :
    dateParse { fieldsOf wall with hour, minute }
      = some (wall / dayMs * dayMs + hour * 3600000 + minute * minuteMs) := by
  have hera : yearOfEra (yearOf (wall / dayMs + epochDay)) = yearOf (wall / dayMs + epochDay) :=
    if_pos (by have := h.1; omega)
  have hyear : (fieldsOf wall).year = yearOf (wall / dayMs + epochDay) := hera
  have hnumber : dayNumber (yearOf (wall / dayMs + epochDay)) (fieldsOf wall).month
      (fieldsOf wall).day = wall / dayMs + epochDay := dayNumber_dateOf _
  unfold dateParse
  simp only [hyear]
  rw [if_pos (show _ ∧ _ from h), dateUtc_of (by have := h.1; omega), hnumber, Int.add_sub_cancel]

theorem dateParse_fieldsOf {wall : Int} (h : FourDigits (wall / dayMs + epochDay)) :
    dateParse (fieldsOf wall) = some (wall - wall % minuteMs) := by
  have hparse : dateParse (fieldsOf wall)
      = some (wall / dayMs * dayMs + wall % dayMs / 3600000 * 3600000
        + wall % 3600000 / minuteMs * minuteMs) := dateParse_at h
  rw [hparse]
  congr 1
  unfold dayMs minuteMs
  omega

/-- Days near each other lie in years next to each other. -/
theorem yearOf_near {a b : Int} (hfrom : a - 300 ≤ b) (hto : b ≤ a + 300) :
    yearOf a - 1 ≤ yearOf b ∧ yearOf b ≤ yearOf a + 1 := by
  obtain ⟨ha, ha'⟩ := yearOf_spec a
  obtain ⟨hb, hb'⟩ := yearOf_spec b
  constructor
  · by_contra hnot
    have hle := daysBeforeYear_le (show yearOf b + 1 ≤ yearOf a - 1 by omega)
    have hyear := daysBeforeYear_le (show yearOf a - 1 ≤ yearOf a by omega)
    omega
  · by_contra hnot
    have hle := daysBeforeYear_le (show yearOf a + 1 + 1 ≤ yearOf b by omega)
    have hyear := daysBeforeYear_le (show yearOf a + 1 ≤ yearOf a + 1 + 1 by omega)
    omega

/-! ## One slot -/

/-- The Monday of a day's week; days are numbered. -/
def mondayOf (day : Int) : Int := day - (day - epochDay + 3) % 7

/-- The day the zone's clock shows. -/
def StandingZone.dayAt (zone : StandingZone) (t : Int) : Int := zone.wallClock t / dayMs + epochDay

/-- What the clock shows at an entry's time in the week of a Monday. -/
def CadenceSlot.reading (slot : CadenceSlot) (monday : Int) : Int :=
  (monday + slot.weekday - 1 - epochDay) * dayMs + slot.hour * 3600000 + slot.minute * minuteMs

theorem standingWeek_eq {instant : Int} {zone : StandingZone}
    (h : FourDigits (zone.dayAt instant)) :
    standingWeek instant zone
      = some ((mondayOf (zone.dayAt instant) - epochDay) * dayMs + 12 * hourMs) := by
  unfold standingWeek
  rw [dateParse_at h]
  simp only [Option.bind_eq_bind, Option.bind_some]
  congr 1
  unfold mondayOf StandingZone.dayAt
  generalize zone.wallClock instant = wall
  unfold dayMs minuteMs hourMs epochDay
  omega

section Slot

variable {zone : StandingZone} {slot : CadenceSlot} {monday wall t : Int}

theorem changes_wall {u : Int} (h : Clocks.Changes (fun t => zone.offset t * minuteMs) u) :
    Clocks.Changes zone.offset u := by
  intro hsame
  apply h
  show zone.offset (u - 1) * minuteMs = zone.offset u * minuteMs
  rw [hsame]

/-- An instant within a day of a reading has the offset of an instant of the grid. -/
theorem exists_sampled (zone : StandingZone) (hfrom : wall - dayMs ≤ t) (hto : t ≤ wall + dayMs) :
    ∃ hours ∈ sampleHours, zone.offset (wall + hours * hourMs) = zone.offset t := by
  have hmem : ∀ step : Int, -6 ≤ step → step ≤ 6 → 6 * step ∈ sampleHours := by
    intro step hlow hhigh
    apply List.mem_map.2
    refine ⟨(step + 6).toNat, List.mem_range.2 (by omega), ?_⟩
    show 6 * ((step + 6).toNat : Int) - 36 = 6 * step
    omega
  -- the last instant of the grid up to `t`, and the next
  have hstep : ∃ step : Int, -6 ≤ step ∧ step ≤ 5 ∧ wall + 6 * step * hourMs ≤ t ∧
      t < wall + 6 * (step + 1) * hourMs := by
    refine ⟨(t - wall) / (6 * hourMs), ?_, ?_, ?_, ?_⟩ <;> unfold hourMs dayMs at * <;> omega
  obtain ⟨step, hlow, hhigh, hbefore, hafter⟩ := hstep
  by_cases hchange : ∃ u, wall + 6 * step * hourMs < u ∧ u ≤ t ∧ Clocks.Changes zone.offset u
  · obtain ⟨u, hu, hut, hchanges⟩ := hchange
    refine ⟨6 * (step + 1), hmem (step + 1) (by omega) (by omega), ?_⟩
    apply Clocks.offset_const hafter.le
    intro v hv hvt hchanges'
    have hapart := zone.apart u v (by omega) hchanges hchanges'
    unfold hourMs at *
    omega
  · refine ⟨6 * step, hmem step hlow (by omega), ?_⟩
    symm
    apply Clocks.offset_const hbefore
    intro v hv hvt hchanges
    exact hchange ⟨v, hv, hvt, hchanges⟩

/-- The years around a Monday. -/
structure Dated (monday : Int) : Prop where
  digits : ∀ day, monday - 10 ≤ day → day ≤ monday + 20 → FourDigits day

theorem CadenceSlot.reading_bounds (slot : CadenceSlot) (monday : Int) :
    slot.reading monday / dayMs + epochDay = monday + slot.weekday - 1 ∧
      slot.reading monday % minuteMs = 0 ∧
      slot.reading monday % dayMs / 3600000 = slot.hour ∧
      slot.reading monday % 3600000 / minuteMs = slot.minute := by
  have hhour := slot.hour_lt
  have hminute := slot.minute_lt
  unfold reading dayMs minuteMs epochDay
  omega

/-- What an entry asks for is what a clock at its reading shows. -/
theorem fieldsOf_reading (h : Dated monday) (slot : CadenceSlot) :
    fieldsOf (slot.reading monday) =
      ⟨(dateOf (monday + slot.weekday - 1)).year, (dateOf (monday + slot.weekday - 1)).month,
        (dateOf (monday + slot.weekday - 1)).day, slot.hour, slot.minute⟩ := by
  obtain ⟨hday, -, hhour, hminute⟩ := slot.reading_bounds monday
  have hpos := slot.weekday_pos
  have hle := slot.weekday_le
  have hdigits := h.digits (monday + slot.weekday - 1) (by omega) (by omega)
  have hera : yearOfEra (dateOf (monday + slot.weekday - 1)).year
      = (dateOf (monday + slot.weekday - 1)).year :=
    if_pos (by have hfrom : 1000 ≤ yearOf (monday + slot.weekday - 1) := hdigits.1
               show 1 ≤ yearOf (monday + slot.weekday - 1); omega)
  unfold fieldsOf partsOf
  simp only [hday, hhour, hminute, hera]

theorem wallClock_near (zone : StandingZone) (t : Int) :
    t - dayMs ≤ zone.wallClock t ∧ zone.wallClock t ≤ t + dayMs := by
  obtain ⟨hlow, hhigh⟩ := zone.within t
  unfold StandingZone.wallClock minuteMs dayMs
  omega

/-- The offsets sampled are the zone's. -/
theorem sampleOffsets_eq (h : Dated monday) (slot : CadenceSlot) (zone : StandingZone) :
    sampleOffsets (slot.reading monday) zone = some (sampleHours.map fun hours =>
      zone.offset (slot.reading monday + hours * hourMs) * minuteMs) := by
  obtain ⟨hday, hwhole, -, -⟩ := slot.reading_bounds monday
  have hpos := slot.weekday_pos
  have hle := slot.weekday_le
  have hall : ∀ hours ∈ sampleHours, ∃ offset,
      (dateParse (fieldsOf (zone.wallClock (slot.reading monday + hours * hourMs)))).map
          (fun clock => clock - (slot.reading monday + hours * hourMs)) = some offset ∧
        offset = zone.offset (slot.reading monday + hours * hourMs) * minuteMs := by
    intro hours hmem
    obtain ⟨step, hstep, rfl⟩ := List.mem_map.1 hmem
    have hlt := List.mem_range.1 hstep
    generalize hsample : slot.reading monday + (6 * (step : Int) - 36) * hourMs = sample
    obtain ⟨hlow, hhigh⟩ := wallClock_near zone sample
    have hdigits : FourDigits (zone.wallClock sample / dayMs + epochDay) := by
      apply h.digits <;> unfold dayMs hourMs epochDay at * <;> omega
    have hminutes : zone.wallClock sample % minuteMs = 0 := by
      unfold StandingZone.wallClock minuteMs hourMs at *
      omega
    refine ⟨_, ?_, rfl⟩
    rw [dateParse_fieldsOf hdigits, hminutes]
    show some (sample + zone.offset sample * minuteMs - 0 - sample) = _
    congr 1
    omega
  obtain ⟨offsets, hoffsets, hsame⟩ := mapM_forall₂ hall
  show List.mapM _ sampleHours = _
  rw [hoffsets, eq_map_of_forall₂ hsame]

/-- A candidate reads back exactly when the clock shows the reading there. -/
theorem candidate_iff (h : Dated monday) {slot : CadenceSlot} {hours : Int}
    (hsampled : wall = slot.reading monday - zone.offset hours * minuteMs) :
    fieldsOf (zone.wallClock wall) = fieldsOf (slot.reading monday) ↔
      zone.wallClock wall = slot.reading monday := by
  obtain ⟨hday, hwhole, -, -⟩ := slot.reading_bounds monday
  have hpos := slot.weekday_pos
  have hle := slot.weekday_le
  constructor
  · intro hfields
    obtain ⟨hlow, hhigh⟩ := wallClock_near zone wall
    have hoffset := zone.within hours
    have hdigits : FourDigits (zone.wallClock wall / dayMs + epochDay) := by
      apply h.digits <;> unfold dayMs minuteMs epochDay at * <;> omega
    have hdigits' : FourDigits (slot.reading monday / dayMs + epochDay) := by
      apply h.digits <;> omega
    have hparse := dateParse_fieldsOf hdigits
    rw [hfields, dateParse_fieldsOf hdigits', Option.some.injEq] at hparse
    unfold StandingZone.wallClock minuteMs at *
    omega
  · intro hwall
    rw [hwall]

/-- The first of an ordered list that passes is the least that does. -/
theorem isLeast_find? {l : List Int} {p : Int → Bool} {c : Int} (hsorted : l.Pairwise (· ≤ ·))
    (hfind : l.find? p = some c) : IsLeast {x | x ∈ l ∧ p x = true} c := by
  obtain ⟨hp, before, after, rfl, hbefore⟩ := List.find?_eq_some_iff_append.1 hfind
  refine ⟨⟨by simp, hp⟩, ?_⟩
  rintro x ⟨hmem, hx⟩
  rcases List.mem_append.1 hmem with hearly | hlate
  · have hnot := hbefore x hearly
    rw [hx] at hnot
    cases hnot
  · rcases List.mem_cons.1 hlate with rfl | hlater
    · exact le_refl _
    · exact (List.pairwise_cons.1 (List.pairwise_append.1 hsorted).2.1).1 x hlater

/-- A slot is the first instant that shows the entry's reading, and none where none does. -/
theorem slotFor_spec (h : Dated monday) (slot : CadenceSlot) (zone : StandingZone) :
    ∃ found, slotFor ((monday - epochDay) * dayMs + 12 * hourMs) zone slot = some found ∧
      (∀ t, found = some t → IsLeast {t | zone.wallClock t = slot.reading monday} t) ∧
      (found = none → ∀ t, zone.wallClock t ≠ slot.reading monday) := by
  obtain ⟨hday, hwhole, -, -⟩ := slot.reading_bounds monday
  have hpos := slot.weekday_pos
  have hle := slot.weekday_le
  have hweek : ((monday - epochDay) * dayMs + 12 * hourMs) / dayMs + epochDay + slot.weekday - 1
      = monday + slot.weekday - 1 := by
    unfold dayMs hourMs epochDay
    omega
  have hparse : dateParse (fieldsOf (slot.reading monday)) = some (slot.reading monday) := by
    rw [dateParse_fieldsOf (h.digits _ (by omega) (by omega)), hwhole, Int.sub_zero]
  unfold slotFor
  simp only [hweek]
  rw [← fieldsOf_reading h slot, hparse]
  simp only [Option.bind_eq_bind, Option.bind_some, sampleOffsets_eq h slot zone]
  refine ⟨_, rfl, ?_⟩
  generalize hcandidates : List.insertionSort (· ≤ ·)
    (List.map (fun offset => slot.reading monday - offset) (List.dedup _)) = candidates
  have hsorted : candidates.Pairwise (· ≤ ·) := by
    rw [← hcandidates]
    exact List.pairwise_insertionSort _ _
  have hmem : ∀ c, c ∈ candidates ↔ ∃ hours ∈ sampleHours,
      c = slot.reading monday - zone.offset (slot.reading monday + hours * hourMs) * minuteMs := by
    intro c
    rw [← hcandidates, List.mem_insertionSort]
    simp only [List.mem_map, List.mem_dedup]
    constructor
    · rintro ⟨offset, ⟨hours, hhours, rfl⟩, rfl⟩
      exact ⟨hours, hhours, rfl⟩
    · rintro ⟨hours, hhours, rfl⟩
      exact ⟨_, ⟨hours, hhours, rfl⟩, rfl⟩
  have hshown : ∀ t, zone.wallClock t = slot.reading monday ↔
      t ∈ candidates ∧ decide (fieldsOf (zone.wallClock t) = fieldsOf (slot.reading monday))
        = true := by
    intro t
    rw [hmem, decide_eq_true_eq]
    constructor
    · intro hwall
      obtain ⟨hlow, hhigh⟩ := wallClock_near zone t
      obtain ⟨hours, hhours, hoffset⟩ := exists_sampled zone
        (show slot.reading monday - dayMs ≤ t by omega)
        (show t ≤ slot.reading monday + dayMs by omega)
      refine ⟨⟨hours, hhours, ?_⟩, by rw [hwall]⟩
      rw [hoffset, ← hwall]
      unfold StandingZone.wallClock
      omega
    · rintro ⟨⟨hours, -, hcandidate⟩, hfields⟩
      exact (candidate_iff h hcandidate).1 hfields
  constructor
  · intro t hfound
    have hleast := isLeast_find? hsorted hfound
    simpa only [hshown] using hleast
  · intro hnone t hwall
    have hpass := (hshown t).1 hwall
    exact List.find?_eq_none.1 hnone t hpass.1 hpass.2

end Slot

/-! ## A week's slots -/

/-- What becomes of an entry at its place in the order. -/
structure Fills (zone : StandingZone) (monday : Int) (entry : CadenceSlot × Nat)
    (slot : Option StandingSlot) : Prop where
  first : ∀ s, slot = some s → s.ordinal = entry.2 + 1 ∧ s.localWeek = dateOf monday ∧
    IsLeast {t | zone.wallClock t = entry.1.reading monday} s.publishAt
  omitted : slot = none → ∀ t, zone.wallClock t ≠ entry.1.reading monday

theorem dated_of_year {day : Int} (hfrom : 1001 ≤ yearOf day) (hto : yearOf day ≤ 9998) :
    Dated (mondayOf day) where
  digits near hlow hhigh := by
    unfold mondayOf at hlow hhigh
    obtain ⟨hbelow, habove⟩ := yearOf_near (show day - 300 ≤ near by omega)
      (show near ≤ day + 300 by omega)
    exact ⟨by omega, by omega⟩

theorem slots_filled {instant : Int} {zone : StandingZone}
    (hfrom : 1001 ≤ yearOf (zone.dayAt instant)) (hto : yearOf (zone.dayAt instant) ≤ 9998)
    (cadence : List CadenceSlot) :
    ∃ filled, standingWeekSlots instant zone cadence = some filled.reduceOption ∧
      List.Forall₂ (Fills zone (mondayOf (zone.dayAt instant)))
        (cadence.insertionSort CadenceSlot.Before).zipIdx filled := by
  have hdated := dated_of_year hfrom hto
  generalize hmonday : mondayOf (zone.dayAt instant) = monday at hdated ⊢
  have hdigits : FourDigits (zone.dayAt instant) := ⟨by omega, by omega⟩
  have hweek := standingWeek_eq hdigits
  rw [hmonday] at hweek
  have hnoon : ((monday - epochDay) * dayMs + 12 * hourMs) / dayMs + epochDay = monday := by
    unfold dayMs hourMs epochDay
    omega
  unfold standingWeekSlots
  simp only [hweek, Option.bind_eq_bind, Option.bind_some, hnoon]
  have hall : ∀ entry ∈ (cadence.insertionSort CadenceSlot.Before).zipIdx,
      ∃ slot, ((slotFor ((monday - epochDay) * dayMs + 12 * hourMs) zone entry.1).bind
        fun publishAt => some (publishAt.map fun publishAt =>
          (⟨entry.2 + 1, dateOf monday, publishAt⟩ : StandingSlot))) = some slot ∧
        Fills zone monday entry slot := by
    intro entry _
    obtain ⟨found, hfound, hfirst, homitted⟩ := slotFor_spec hdated entry.1 zone
    rw [hfound]
    refine ⟨_, rfl, ?_, ?_⟩
    · intro slot hslot
      obtain ⟨publishAt, hpublish, rfl⟩ := Option.map_eq_some_iff.1 hslot
      exact ⟨rfl, rfl, hfirst publishAt hpublish⟩
    · intro hnone
      exact homitted (Option.map_eq_none_iff.1 hnone)
  obtain ⟨filled, hmap, hfills⟩ := mapM_forall₂ hall
  refine ⟨filled, ?_, hfills⟩
  rw [hmap]
  rfl

/-- An entry of the list that a slot was made of. -/
theorem Fills.entry {zone : StandingZone} {monday : Int} {sorted : List CadenceSlot}
    {filled : List (Option StandingSlot)}
    (h : List.Forall₂ (Fills zone monday) sorted.zipIdx filled) {s : StandingSlot}
    (hs : s ∈ filled.reduceOption) :
    ∃ index slot, sorted[index]? = some slot ∧ s.ordinal = index + 1 ∧ s.localWeek = dateOf monday ∧
      IsLeast {t | zone.wallClock t = slot.reading monday} s.publishAt := by
  rw [List.reduceOption_mem_iff] at hs
  obtain ⟨place, hplace, hget⟩ := List.getElem_of_mem hs
  have hlength := h.length_eq
  have hfills := List.Forall₂.get h (by omega) hplace
  have hslot : filled.get ⟨place, hplace⟩ = some s := hget
  obtain ⟨hordinal, hweek, hleast⟩ := hfills.first s hslot
  refine ⟨_, _, ?_, hordinal, hweek, hleast⟩
  exact List.mk_mem_zipIdx_iff_getElem?.1 (List.getElem_mem _)

/-- Entries in order have readings in order. -/
theorem CadenceSlot.Before.reading_lt {a b : CadenceSlot} (h : a.Before b) (hne : a ≠ b)
    (monday : Int) : a.reading monday < b.reading monday := by
  have hhour := a.hour_lt
  have hminute := a.minute_lt
  have hdiffer : ¬ (a.weekday = b.weekday ∧ a.hour = b.hour ∧ a.minute = b.minute) := by
    rintro ⟨hweekday, hhours, hminutes⟩
    apply hne
    cases a
    cases b
    simp_all
  unfold reading dayMs minuteMs
  rcases h with hday | ⟨hday, hlater | ⟨hsame, hlater⟩⟩
  · omega
  · omega
  · omega

/-- The zone of the local clock, as one of a plan. -/
def StandingZone.of (zone : Zone) : StandingZone where
  offset := zone.offset
  within t := by
    obtain ⟨hlow, hhigh⟩ := zone.underADay t
    omega
  apart s t hst hs ht := by
    have hisolated := zone.isolated s t hst hs ht
    unfold hourMs
    unfold dayMs at hisolated
    omega

/-- Where a time is shown once, both resolutions of it agree. -/
theorem localInstant_agrees {monday t : Int} (h : Dated monday) (slot : CadenceSlot) (zone : Zone)
    (ht : zone.wallClock t = slot.reading monday)
    (honce : ∀ t', zone.wallClock t' = slot.reading monday → t' = t) :
    localInstant (dateText (dateOf (monday + slot.weekday - 1)).year
        (dateOf (monday + slot.weekday - 1)).month (dateOf (monday + slot.weekday - 1)).day)
      ⟨slot.hour, slot.minute, none, none⟩ zone = .ok t := by
  have hpos := slot.weekday_pos
  have hle := slot.weekday_le
  obtain ⟨hday, -, -, -⟩ := slot.reading_bounds monday
  obtain ⟨hyear, hyear'⟩ := h.digits (monday + slot.weekday - 1) (by omega) (by omega)
  change 1000 ≤ (dateOf (monday + slot.weekday - 1)).year at hyear
  let input : ClockInput := ⟨dateOf (monday + slot.weekday - 1), dateOf_valid _, by omega, hyear',
    slot.hour, slot.hour_lt, slot.minute, slot.minute_lt⟩
  have hwall : input.wall = slot.reading monday := by
    have hnumber : input.date.number = monday + slot.weekday - 1 := dayNumber_dateOf _
    unfold ClockInput.wall CadenceSlot.reading
    rw [hnumber]
  have hdigits : ∀ u, slot.reading monday - dayMs ≤ u → u ≤ slot.reading monday + dayMs →
      100 ≤ zone.yearAt u := by
    intro u hlow hhigh
    obtain ⟨hnear, hnear'⟩ := wallClock_near (.of zone) u
    change u - dayMs ≤ zone.wallClock u at hnear
    change zone.wallClock u ≤ u + dayMs at hnear'
    have hfrom : FourDigits (zone.wallClock u / dayMs + epochDay) := by
      apply h.digits <;> unfold dayMs epochDay at * <;> omega
    exact le_trans (by omega) hfrom.1
  obtain ⟨hlow, hhigh⟩ := zone.underADay (slot.reading monday)
  obtain ⟨change, before, after, haround⟩ := zone.exists_around (slot.reading monday)
  have htime : OfWall input.time (slot.reading monday) := hwall ▸ input.ofWall
  have hguess := zoneOffsetMinutes_eq (hdigits (slot.reading monday)
    (by unfold dayMs; omega) (by unfold dayMs; omega))
  have hfirst := zoneOffsetMinutes_eq (hdigits
    (slot.reading monday - zone.offset (slot.reading monday) * minuteMs)
    (by unfold dayMs minuteMs; omega) (by unfold dayMs minuteMs; omega))
  have hresolves : Resolves zone (slot.reading monday) t := by
    refine ⟨fun _ => ⟨ht, ?_⟩, fun u u' hlt hu hu' => ?_, fun hnone => absurd ht (hnone t)⟩
    · show partsOf (zone.wallClock t) = _
      rw [ht]
    · have hsame := honce u hu
      have hsame' := honce u' hu'
      omega
  have hshown := haround.wallClock_iff
  have hcorrect : correct (slot.reading monday) input.time zone = t := by
    rw [(haround.resolves_iff t).1 hresolves,
      haround.correct_iff_of_read htime hguess hfirst]
    constructor
    · intro hone htwo
      have hsame := honce _ ((hshown _).2 (.inl ⟨rfl, hone⟩))
      have hsame' := honce _ ((hshown _).2 (.inr ⟨rfl, htwo⟩))
      omega
    · intro hone htwo
      rcases (hshown t).1 ht with ⟨heq, hlt⟩ | ⟨heq, hle'⟩ <;> omega
  show localInstant input.text input.time zone = _
  unfold localInstant
  rw [input.dateFields_text]
  dsimp only
  rw [input.guessOf_eq, hwall, hcorrect]

instance : Std.Total CadenceSlot.Before where
  total a b := by
    unfold CadenceSlot.Before
    omega

instance : IsTrans CadenceSlot CadenceSlot.Before where
  trans a b c hab hbc := by
    unfold CadenceSlot.Before at *
    omega

/-- A zone that is never set back by more than seven hours. -/
def StandingZone.Gentle (zone : StandingZone) : Prop :=
  ∀ t, zone.offset (t - 1) - zone.offset t ≤ 420

theorem StandingZone.Gentle.steady {zone : StandingZone} (h : zone.Gentle) :
    Clocks.Steady (fun t => zone.offset t * minuteMs) (7 * hourMs) where
  pos := by decide
  apart s t hst hs ht := zone.apart s t hst (changes_wall hs) (changes_wall ht)
  back t := by
    have hback := h t
    show zone.offset (t - 1) * minuteMs - zone.offset t * minuteMs ≤ 7 * hourMs
    unfold minuteMs hourMs
    omega
  bounded := by
    refine ⟨1440 * minuteMs, fun t => ?_⟩
    obtain ⟨-, hhigh⟩ := zone.within t
    show zone.offset t * minuteMs ≤ 1440 * minuteMs
    unfold minuteMs
    omega

/-- Each entry's slot is the first instant that shows its time in the local week, and is left out
where none does; the slots follow the order of the entries, and each is the instant the local
clock resolves its time to where the zone shows it once. -/
theorem slots_first (instant : Int) (zone : StandingZone) (cadence : List CadenceSlot)
    (hfrom : 1001 ≤ yearOf (zone.dayAt instant)) (hto : yearOf (zone.dayAt instant) ≤ 9998) :
    let monday := mondayOf (zone.dayAt instant)
    let sorted := cadence.insertionSort CadenceSlot.Before
    ∃ filled, standingWeekSlots instant zone cadence = some filled.reduceOption ∧
      List.Forall₂ (Fills zone monday) sorted.zipIdx filled ∧
      (zone.Gentle → ∀ s ∈ filled.reduceOption, ∀ s' ∈ filled.reduceOption,
        s.ordinal < s'.ordinal → sorted[s.ordinal - 1]? ≠ sorted[s'.ordinal - 1]? →
        s.publishAt < s'.publishAt) ∧
      ∀ localZone : Zone, StandingZone.of localZone = zone → ∀ s ∈ filled.reduceOption,
        ∀ slot ∈ sorted[s.ordinal - 1]?,
        (∀ t, localZone.wallClock t = slot.reading monday → t = s.publishAt) →
        localInstant (dateText (dateOf (monday + slot.weekday - 1)).year
            (dateOf (monday + slot.weekday - 1)).month (dateOf (monday + slot.weekday - 1)).day)
          ⟨slot.hour, slot.minute, none, none⟩ localZone = .ok s.publishAt := by
  intro monday sorted
  obtain ⟨filled, hcode, hfills⟩ := slots_filled hfrom hto cadence
  refine ⟨filled, hcode, hfills, ?_, ?_⟩
  · intro hgentle s hs s' hs' hlt hne
    obtain ⟨i, slot, hi, hordinal, -, hleast⟩ := Fills.entry hfills hs
    obtain ⟨j, slot', hj, hordinal', -, hleast'⟩ := Fills.entry hfills hs'
    rw [hordinal, hordinal', Nat.add_sub_cancel, Nat.add_sub_cancel] at hne
    change (cadence.insertionSort CadenceSlot.Before)[i]? ≠
      (cadence.insertionSort CadenceSlot.Before)[j]? at hne
    rw [hi, hj] at hne
    have hbefore : slot.Before slot' := by
      have hsorted := List.pairwise_insertionSort CadenceSlot.Before cadence
      obtain ⟨hi', rfl⟩ := List.getElem?_eq_some_iff.1 hi
      obtain ⟨hj', rfl⟩ := List.getElem?_eq_some_iff.1 hj
      exact List.pairwise_iff_getElem.1 hsorted i j hi' hj' (by omega)
    have hreading := hbefore.reading_lt (fun heq => hne (congrArg some heq)) monday
    exact Clocks.first_lt_first hgentle.steady hreading hleast hleast'
  · rintro localZone rfl s hs slot hslot honce
    obtain ⟨i, slot', hi, hordinal, -, hleast⟩ := Fills.entry hfills hs
    have hsame : slot' = slot := by
      rw [hordinal, Nat.add_sub_cancel] at hslot
      exact Option.some.inj (hi.symm.trans hslot)
    subst hsame
    exact localInstant_agrees (dated_of_year hfrom hto) slot' localZone hleast.1 honce

theorem slots_first_berlin :
    let zone := StandingZone.of berlin
    let cadence : List CadenceSlot := [⟨7, 2, 30, by decide, by decide, by decide, by decide⟩]
    let monday := mondayOf (zone.dayAt 1792500000000)
    let sorted := cadence.insertionSort CadenceSlot.Before
    ∃ filled, standingWeekSlots 1792500000000 zone cadence = some filled.reduceOption ∧
      List.Forall₂ (Fills zone monday) sorted.zipIdx filled ∧
      (zone.Gentle → ∀ s ∈ filled.reduceOption, ∀ s' ∈ filled.reduceOption,
        s.ordinal < s'.ordinal → sorted[s.ordinal - 1]? ≠ sorted[s'.ordinal - 1]? →
        s.publishAt < s'.publishAt) ∧
      ∀ localZone : Zone, StandingZone.of localZone = zone → ∀ s ∈ filled.reduceOption,
        ∀ slot ∈ sorted[s.ordinal - 1]?,
        (∀ t, localZone.wallClock t = slot.reading monday → t = s.publishAt) →
        localInstant (dateText (dateOf (monday + slot.weekday - 1)).year
            (dateOf (monday + slot.weekday - 1)).month (dateOf (monday + slot.weekday - 1)).day)
          ⟨slot.hour, slot.minute, none, none⟩ localZone = .ok s.publishAt :=
  slots_first 1792500000000 (.of berlin) _ (by decide +kernel) (by decide +kernel)

/-- Set forward by twenty hours at the start of 2026-10-21, and back eight hours later. -/
def leaping : StandingZone where
  offset t := if t < 1792540800000 then -600 else if t < 1792569600000 then 600 else -600
  within t := by split_ifs <;> omega
  apart s t hst hs ht := by
    unfold Clocks.Changes at hs ht
    unfold hourMs
    dsimp only at hs ht
    split_ifs at hs ht <;> omega

/-- Set forward by two hours at the start of 2026-10-21, and back by eleven eight hours later: half
past midnight is shown once, ten hours after it would be at UTC. -/
def hasty : StandingZone where
  offset t := if t < 1792540800000 then -60 else if t < 1792569600000 then 60 else -600
  within t := by split_ifs <;> omega
  apart s t hst hs ht := by
    unfold Clocks.Changes at hs ht
    unfold hourMs
    dsimp only at hs ht
    split_ifs at hs ht <;> omega

theorem hasty_shown_once (t : Int) :
    hasty.wallClock t = 1792542600000 ↔ t = 1792578600000 := by
  show t + (if t < 1792540800000 then -60 else if t < 1792569600000 then 60 else -600) * 60000 = _
    ↔ _
  split_ifs <;> omega

/-- The first half past two of the day Berlin's clock is set back, where the local clock takes the
second; a day whose midnight is first shown after its noon; and a time that is shown once, in a
zone that changes twice in a day, where the local clock takes an instant that shows another. -/
theorem slots_first_violates :
    standingWeekSlots 1792500000000 (.of berlin)
        [⟨7, 2, 30, by decide, by decide, by decide, by decide⟩]
        = some [⟨1, ⟨2026, 10, 19⟩, 1792888200000⟩] ∧
      localInstant (js "2026-10-25") ⟨2, 30, none, none⟩ berlin = .ok 1792891800000 ∧
      standingWeekSlots 1792500000000 leaping
        [⟨3, 0, 0, by decide, by decide, by decide, by decide⟩,
          ⟨3, 12, 0, by decide, by decide, by decide, by decide⟩]
        = some [⟨1, ⟨2026, 10, 19⟩, 1792576800000⟩, ⟨2, ⟨2026, 10, 19⟩, 1792548000000⟩] ∧
      (∀ t, hasty.wallClock t = 1792542600000 ↔ t = 1792578600000) ∧
      standingWeekSlots 1792500000000 hasty
        [⟨3, 0, 30, by decide, by decide, by decide, by decide⟩]
        = some [⟨1, ⟨2026, 10, 19⟩, 1792578600000⟩] ∧
      localInstant (js "2026-10-21") ⟨0, 30, none, none⟩ ⟨hasty.offset⟩ = .ok 1792546200000 := by
  refine ⟨by decide +kernel, by decide +kernel, by decide +kernel, hasty_shown_once, ?_, ?_⟩
  · decide +kernel
  · decide +kernel

end FoundingSales.Social
