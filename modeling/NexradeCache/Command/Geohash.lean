import Mathlib.Algebra.Order.Field.Rat
import Mathlib.Tactic.NormNum
import NexradeCache.Lib.Bisection
import NexradeCache.Lib.Text

/-!
# Geohashes (`nexrade-core/src/command/geo.rs`)

`geohash_encode` halves the two ranges in turn, five bits to a character. Coordinates are rationals: the middles of 28
halvings of the ranges are exact.

The encoder puts a 1 where the point is in the upper half and goes on in the lower one. From then on the point is
outside its interval, always on the same side of it, so every bit of an axis repeats the first one and there are four
strings in all (`geohashEncode_eq`).
-/

namespace NexradeCache

namespace Geohash

open Bisection Utf8

/-- "0123456789bcdefghjkmnpqrstuvwxyz". -/
def BASE32 : Bytes := [48, 49, 50, 51, 52, 53, 54, 55, 56, 57, 98, 99, 100, 101, 102, 103, 104, 106, 107, 109, 110, 112,
  113, 114, 115, 116, 117, 118, 119, 120, 121, 122]

example : BASE32 = asBytes "0123456789bcdefghjkmnpqrstuvwxyz" := by decide +kernel

/-- The variables of the loop. -/
structure Encoder where
  minLon : ℚ := -180
  maxLon : ℚ := 180
  minLat : ℚ := -90
  maxLat : ℚ := 90
  result : Bytes := []
  bits : UInt8 := 0
  bitCount : UInt8 := 0
  isLon : Bool := true

/-- One halving of an axis: the new ends and the bit. -/
def bisect (min max x : ℚ) : ℚ × ℚ × UInt8 :=
  let m := (min + max) / 2
  if x ≥ m then (min, m, 1) else (m, max, 0)

def Encoder.halve (e : Encoder) (lon lat : ℚ) : Encoder × UInt8 :=
  if e.isLon then
    let (min, max, bit) := bisect e.minLon e.maxLon lon
    ({ e with minLon := min, maxLon := max }, bit)
  else
    let (min, max, bit) := bisect e.minLat e.maxLat lat
    ({ e with minLat := min, maxLat := max }, bit)

/-- The rest of a pass; the index is below 32. -/
def Encoder.push (e : Encoder) (bit : UInt8) : ForInStep Encoder :=
  let e := { e with isLon := !e.isLon, bits := (e.bits <<< 1) ||| bit, bitCount := e.bitCount + 1 }
  if e.bitCount = 5 then
    let e := { e with result := e.result ++ [BASE32.getD e.bits.toNat 0], bits := 0, bitCount := 0 }
    if e.result.length = 11 then .done e else .yield e
  else .yield e

def passes (lon lat : ℚ) : Nat → Encoder → Encoder
  | 0, e => e
  | n + 1, e =>
    let halved := e.halve lon lat
    match halved.1.push halved.2 with
    | .done e => e
    | .yield e => passes lon lat n e

def geohashEncode (lon lat : ℚ) : String := (fromUtf8 (passes lon lat 55 {}).result).getD ""

/-! ## What a geohash names -/

/-- The rectangle a prefix of the bits stands for. -/
structure Cell where
  lon : Bisection.Interval ℚ
  lat : Bisection.Interval ℚ

/-- The longitudes and latitudes of all points. -/
def world : Cell := ⟨⟨-180, 180, by norm_num⟩, ⟨-90, 90, by norm_num⟩⟩

def Cell.Contains (c : Cell) (lon lat : ℚ) : Prop := c.lon.Contains lon ∧ c.lat.Contains lat

/-- The bits of a list alternate between longitude and latitude. -/
def Cell.narrow (c : Cell) (bits : List Bool) : Cell := ⟨c.lon.narrow (evens bits), c.lat.narrow (odds bits)⟩

/-- Five bits, the highest first. -/
def charBits (c : UInt8) : Option (List Bool) :=
  (BASE32.findIdx? (· == c)).map fun i => [i.testBit 4, i.testBit 3, i.testBit 2, i.testBit 1, i.testBit 0]

def textBits (text : Bytes) : Option (List Bool) := (text.mapM charBits).map List.flatten

/-- The cell a geohash names. -/
def decode (text : Bytes) : Option Cell := (textBits text).map world.narrow

/-- The text names a cell of the size of 28 and 27 halvings with the point in it, and so does each of its prefixes. -/
structure Names (text : Bytes) (lon lat : ℚ) : Prop where
  cell : ∃ c, decode text = some c ∧ c.Contains lon lat ∧ c.lon.width = 360 / 2 ^ 28 ∧ c.lat.width = 180 / 2 ^ 27
  prefixes : ∀ short, short <+: text → ∃ c, decode short = some c ∧ c.Contains lon lat

/-- The point belongs to this interval and not to its neighbour: the upper end counts at the end of the world only. -/
def Owns (whole i : Bisection.Interval ℚ) (x : ℚ) : Prop := i.lo ≤ x ∧ (x < i.hi ∨ x = i.hi ∧ i.hi = whole.hi)

/-- A cell of 11 characters to which both points belong. -/
def SameCell (lon lat lon' lat' : ℚ) : Prop :=
  ∃ text c, text.length = 11 ∧ decode text = some c ∧ (Owns world.lon c.lon lon ∧ Owns world.lat c.lat lat) ∧
    Owns world.lon c.lon lon' ∧ Owns world.lat c.lat lat'

/-! ## The point outside its interval -/

/-- The bit of this axis is the same from here on. -/
def Stuck (min max x : ℚ) (upper : Bool) : Prop := min ≤ max ∧ ((min + max) / 2 ≤ x ↔ upper = true)

theorem bisect_stuck {min max x : ℚ} {upper : Bool} (stuck : Stuck min max x upper) :
    (bisect min max x).2.2 = (if upper then 1 else 0) ∧
      Stuck (bisect min max x).1 (bisect min max x).2.1 x upper := by
  obtain ⟨ordered, side⟩ := stuck
  cases upper with
  | true =>
    have above : (min + max) / 2 ≤ x := side.2 rfl
    rw [bisect, if_pos above]
    have middle : min ≤ (min + max) / 2 := by linarith
    exact ⟨rfl, middle, iff_of_true (by linarith) rfl⟩
  | false =>
    have below : ¬ (min + max) / 2 ≤ x := fun above => Bool.noConfusion (side.1 above)
    rw [bisect, if_neg below]
    have middle : (min + max) / 2 ≤ max := by linarith
    exact ⟨rfl, middle, iff_of_false (by linarith) Bool.false_ne_true⟩

theorem stuck_world {top x : ℚ} (whole : 0 ≤ top) : Stuck (-top) top x (decide (0 ≤ x)) := by
  refine ⟨by linarith, ?_⟩
  rw [neg_add_cancel, zero_div, decide_eq_true_iff]

/-- Two runs that wrote the same so far and whose points are on the same sides. -/
structure Twin (east north : Bool) (lon lat lon' lat' : ℚ) (e e' : Encoder) : Prop where
  lon : Stuck e.minLon e.maxLon lon east
  lat : Stuck e.minLat e.maxLat lat north
  lon' : Stuck e'.minLon e'.maxLon lon' east
  lat' : Stuck e'.minLat e'.maxLat lat' north
  result : e'.result = e.result
  bits : e'.bits = e.bits
  bitCount : e'.bitCount = e.bitCount
  isLon : e'.isLon = e.isLon

section Twins

variable {east north : Bool} {lon lat lon' lat' : ℚ} {e e' : Encoder}

theorem Twin.halve (twin : Twin east north lon lat lon' lat' e e') :
    (e'.halve lon' lat').2 = (e.halve lon lat).2 ∧
      Twin east north lon lat lon' lat' (e.halve lon lat).1 (e'.halve lon' lat').1 := by
  obtain ⟨bit, kept⟩ := bisect_stuck twin.lon
  obtain ⟨bit', kept'⟩ := bisect_stuck twin.lon'
  obtain ⟨latBit, latKept⟩ := bisect_stuck twin.lat
  obtain ⟨latBit', latKept'⟩ := bisect_stuck twin.lat'
  have turn := twin.isLon
  cases side : e.isLon with
  | true =>
    rw [side] at turn
    rw [Encoder.halve, Encoder.halve, side, turn, if_pos rfl, if_pos rfl]
    exact ⟨bit'.trans bit.symm, kept, twin.lat, kept', twin.lat', twin.result, twin.bits, twin.bitCount, rfl⟩
  | false =>
    rw [side] at turn
    rw [Encoder.halve, Encoder.halve, side, turn, if_neg Bool.false_ne_true, if_neg Bool.false_ne_true]
    exact ⟨latBit'.trans latBit.symm, twin.lon, latKept, twin.lon', latKept', twin.result, twin.bits, twin.bitCount,
      rfl⟩

/-- What is written does not depend on the intervals. -/
theorem Twin.push (twin : Twin east north lon lat lon' lat' e e') (bit : UInt8) :
    (∃ d d', e.push bit = .done d ∧ e'.push bit = .done d' ∧ d'.result = d.result) ∨
      ∃ d d', e.push bit = .yield d ∧ e'.push bit = .yield d' ∧ Twin east north lon lat lon' lat' d d' := by
  simp only [Encoder.push, twin.result, twin.bits, twin.bitCount, twin.isLon]
  split
  · split
    · exact .inl ⟨_, _, rfl, rfl, rfl⟩
    · exact .inr ⟨_, _, rfl, rfl, twin.lon, twin.lat, twin.lon', twin.lat', rfl, rfl, rfl, rfl⟩
  · exact .inr ⟨_, _, rfl, rfl, twin.lon, twin.lat, twin.lon', twin.lat', rfl, rfl, rfl, rfl⟩

theorem Twin.passes (twin : Twin east north lon lat lon' lat' e e') (n : Nat) :
    (passes lon' lat' n e').result = (Geohash.passes lon lat n e).result := by
  induction n generalizing e e' with
  | zero => exact twin.result
  | succ n ih =>
    obtain ⟨same, halved⟩ := twin.halve
    unfold Geohash.passes
    dsimp only
    rw [same]
    obtain ⟨d, d', left, right, written⟩ | ⟨d, d', left, right, twin'⟩ := halved.push (e.halve lon lat).2
    · rw [left, right]
      exact written
    · rw [left, right]
      exact ih twin'

end Twins

theorem passes_eq_of_sides {lon lat lon' lat' : ℚ} (east : 0 ≤ lon' ↔ 0 ≤ lon) (north : 0 ≤ lat' ↔ 0 ≤ lat) :
    (passes lon' lat' 55 {}).result = (passes lon lat 55 {}).result := by
  have sameEast : decide (0 ≤ lon') = decide (0 ≤ lon) := by rw [decide_eq_decide, east]
  have sameNorth : decide (0 ≤ lat') = decide (0 ≤ lat) := by rw [decide_eq_decide, north]
  have start : Twin (decide (0 ≤ lon)) (decide (0 ≤ lat)) lon lat lon' lat' {} {} := {
    lon := stuck_world (by norm_num)
    lat := stuck_world (by norm_num)
    lon' := sameEast ▸ stuck_world (by norm_num)
    lat' := sameNorth ▸ stuck_world (by norm_num)
    result := rfl
    bits := rfl
    bitCount := rfl
    isLon := rfl }
  exact start.passes 55

/-! ## The four strings -/

/-- A point of each hemisphere. -/
def pole (positive : Bool) : ℚ := if positive then 0 else -1

theorem pole_side (x : ℚ) : 0 ≤ pole (decide (0 ≤ x)) ↔ 0 ≤ x := by
  by_cases side : 0 ≤ x
  · simp [pole, side]
  · simp [pole, side]

/-- The text of the points of two hemispheres. -/
def stuckText (east north : Bool) : Bytes := (passes (pole east) (pole north) 55 {}).result

theorem stuckText_ascii : ∀ east north, ∀ x ∈ stuckText east north, x < 128 := by decide +kernel

theorem stuckText_bits : ∀ east north, (textBits (stuckText east north)).map (fun l => (evens l, odds l)) =
    some (.replicate 28 east, .replicate 27 north) := by decide +kernel

theorem asBytes_geohashEncode (lon lat : ℚ) :
    asBytes (geohashEncode lon lat) = stuckText (decide (0 ≤ lon)) (decide (0 ≤ lat)) := by
  have same := passes_eq_of_sides (pole_side lon) (pole_side lat)
  rw [geohashEncode, ← same]
  obtain ⟨s, read, back⟩ := fromUtf8_ascii (stuckText_ascii (decide (0 ≤ lon)) (decide (0 ≤ lat)))
  rw [stuckText] at read back ⊢
  rw [read, Option.getD_some, back]

theorem decode_geohashEncode (lon lat : ℚ) :
    decode (asBytes (geohashEncode lon lat)) = some ⟨world.lon.narrow (.replicate 28 (decide (0 ≤ lon))),
      world.lat.narrow (.replicate 27 (decide (0 ≤ lat)))⟩ := by
  have bits := stuckText_bits (decide (0 ≤ lon)) (decide (0 ≤ lat))
  rw [asBytes_geohashEncode, decode]
  obtain ⟨l, read, split⟩ := Option.map_eq_some_iff.1 bits
  rw [read, Option.map_some, Cell.narrow, (Prod.mk.inj split).1, (Prod.mk.inj split).2]

/-! ## Prefixes -/

theorem textBits_append (text more : Bytes) :
    textBits (text ++ more) = (textBits text).bind fun l => (textBits more).map (l ++ ·) := by
  simp only [textBits, List.mapM_append]
  cases text.mapM charBits with
  | none => rfl
  | some l =>
    cases more.mapM charBits with
    | none => rfl
    | some l' => simp

theorem decode_prefix {text short : Bytes} {c : Cell} {lon lat : ℚ} (named : decode text = some c)
    (inside : c.Contains lon lat) (start : short <+: text) : ∃ c', decode short = some c' ∧ c'.Contains lon lat := by
  obtain ⟨more, rfl⟩ := start
  obtain ⟨l, bits, rfl⟩ := Option.map_eq_some_iff.1 named
  rw [textBits_append] at bits
  obtain ⟨l₁, before, rest⟩ := Option.bind_eq_some_iff.1 bits
  obtain ⟨l₂, -, rfl⟩ := Option.map_eq_some_iff.1 rest
  refine ⟨world.narrow l₁, by rw [decode, before, Option.map_some], ?_⟩
  obtain ⟨⟨even, evenly⟩, odd, oddly⟩ := evens_odds_append l₁ l₂
  have ⟨lonIn, latIn⟩ := inside
  simp only [Cell.narrow, evenly, oddly] at lonIn latIn
  exact ⟨lonIn.before, latIn.before⟩

/-! ## One cell, one string -/

/-- A named cell is on one side of both first middles. -/
theorem decode_sides {text : Bytes} {c : Cell} (long : text ≠ []) (named : decode text = some c) :
    (0 ≤ c.lon.lo ∨ c.lon.hi ≤ 0) ∧ (0 ≤ c.lat.lo ∨ c.lat.hi ≤ 0) := by
  obtain ⟨a, text, rfl⟩ := List.exists_cons_of_ne_nil long
  obtain ⟨l, bits, rfl⟩ := Option.map_eq_some_iff.1 named
  rw [← List.singleton_append, textBits_append] at bits
  obtain ⟨l₁, first, rest⟩ := Option.bind_eq_some_iff.1 bits
  obtain ⟨l₂, -, rfl⟩ := Option.map_eq_some_iff.1 rest
  obtain ⟨b, b', l', rfl⟩ : ∃ b b' l', l₁ = b :: b' :: l' := by
    obtain ⟨lists, mapped, rfl⟩ := Option.map_eq_some_iff.1 first
    obtain ⟨five, char, rfl⟩ : ∃ five, charBits a = some five ∧ lists = [five] := by
      cases char : charBits a with
      | none => simp [char] at mapped
      | some five => exact ⟨five, rfl, by simpa [char] using mapped.symm⟩
    obtain ⟨i, -, rfl⟩ := Option.map_eq_some_iff.1 char
    exact ⟨_, _, _, rfl⟩
  have lonMid : world.lon.mid = 0 := by norm_num [world, Bisection.Interval.mid]
  have latMid : world.lat.mid = 0 := by norm_num [world, Bisection.Interval.mid]
  rw [Cell.narrow, List.cons_append, List.cons_append, evens_cons, odds_cons, odds_cons, evens_cons]
  exact ⟨lonMid ▸ Bisection.Interval.bits_side _ _ _, latMid ▸ Bisection.Interval.bits_side _ _ _⟩

theorem Owns.side {whole i : Bisection.Interval ℚ} {x y : ℚ} (sides : 0 ≤ i.lo ∨ i.hi ≤ 0) (positive : 0 < whole.hi)
    (mine : Owns whole i x) (yours : Owns whole i y) : 0 ≤ y ↔ 0 ≤ x := by
  rcases sides with above | below
  · exact iff_of_true (above.trans yours.1) (above.trans mine.1)
  · have left (z : ℚ) (owned : Owns whole i z) : ¬ 0 ≤ z := by
      rcases owned.2 with low | ⟨-, top⟩
      · linarith
      · linarith
    exact iff_of_false (left y yours) (left x mine)

theorem SameCell.geohashEncode {lon lat lon' lat' : ℚ} (same : SameCell lon lat lon' lat') :
    geohashEncode lon' lat' = Geohash.geohashEncode lon lat := by
  obtain ⟨text, c, long, named, ⟨lonIn, latIn⟩, lonIn', latIn'⟩ := same
  obtain ⟨lonSide, latSide⟩ := decode_sides (fun empty => by simp [empty] at long) named
  have east := lonIn.side lonSide (by norm_num [world]) lonIn'
  have north := latIn.side latSide (by norm_num [world]) latIn'
  rw [Geohash.geohashEncode, Geohash.geohashEncode, passes_eq_of_sides east north]

/-! ## Where the cell has the point in it -/

/-- The end at which an axis of half a length `top` gets stuck. -/
theorem contains_stuck {i : Bisection.Interval ℚ} {top x : ℚ} (low : i.lo = -top) (high : i.hi = top) (inside : i.Contains x)
    (n : Nat) : (i.narrow (.replicate n (decide (0 ≤ x)))).Contains x ↔ top - 2 * top / 2 ^ n ≤ |x| := by
  have wide : i.width = 2 * top := by
    rw [Bisection.Interval.width, low, high]
    ring
  by_cases side : 0 ≤ x
  · rw [decide_eq_true side, Bisection.Interval.contains_narrow_upper inside, wide, high, abs_of_nonneg side]
  · rw [decide_eq_false side, Bisection.Interval.contains_narrow_lower inside, wide, low, abs_of_neg (not_le.1 side)]
    constructor <;> intro near <;> linarith

theorem names_iff {lon lat : ℚ} (lonIn : world.lon.Contains lon) (latIn : world.lat.Contains lat) :
    Names (asBytes (geohashEncode lon lat)) lon lat ↔ 180 - 360 / 2 ^ 28 ≤ |lon| ∧ 90 - 180 / 2 ^ 27 ≤ |lat| := by
  have lonAt := contains_stuck (i := world.lon) rfl rfl lonIn 28
  have latAt := contains_stuck (i := world.lat) rfl rfl latIn 27
  norm_num only at lonAt latAt ⊢
  constructor
  · rintro ⟨⟨c, named, ⟨inLon, inLat⟩, -⟩, -⟩
    rw [decode_geohashEncode, Option.some_inj] at named
    subst named
    exact ⟨lonAt.1 inLon, latAt.1 inLat⟩
  · rintro ⟨east, north⟩
    have named := decode_geohashEncode lon lat
    refine ⟨⟨_, named, ⟨lonAt.2 east, latAt.2 north⟩, ?_, ?_⟩, fun short start =>
      decode_prefix named ⟨lonAt.2 east, latAt.2 north⟩ start⟩
    · rw [Bisection.Interval.width_narrow, List.length_replicate]
      norm_num [Bisection.Interval.width, world]
    · rw [Bisection.Interval.width_narrow, List.length_replicate]
      norm_num [Bisection.Interval.width, world]

/-- The geohash of a point names a cell with the point in it only along the edges of the map; two points of one cell
always get one string. Where the point is in the upper half the encoder goes on in the lower one, so each axis comes
to a cell at its end; its sides are right, but not its place. -/
theorem geohash_cell_iff {lon lat : ℚ} (lonIn : -180 ≤ lon ∧ lon ≤ 180) (latIn : -90 ≤ lat ∧ lat ≤ 90) :
    (Names (asBytes (geohashEncode lon lat)) lon lat ∧
        ∀ lon' lat', SameCell lon lat lon' lat' → geohashEncode lon' lat' = geohashEncode lon lat) ↔
      180 - 360 / 2 ^ 28 ≤ |lon| ∧ 90 - 180 / 2 ^ 27 ≤ |lat| := by
  have strings (lon' lat') (same : SameCell lon lat lon' lat') := same.geohashEncode
  rw [names_iff lonIn latIn]
  exact ⟨And.left, fun near => ⟨near, strings⟩⟩

/-- The upper corner of the map is in the cell of its own string. -/
theorem geohash_cell_corner :
    Names (asBytes (geohashEncode 180 90)) 180 90 ∧
      ∀ lon' lat', SameCell 180 90 lon' lat' → geohashEncode lon' lat' = geohashEncode 180 90 :=
  (geohash_cell_iff ⟨by norm_num, by norm_num⟩ ⟨by norm_num, by norm_num⟩).2 ⟨by norm_num, by norm_num⟩

/-- The cell of the string of the point at 10, 10 is the one at the upper corner of the map. -/
theorem geohash_cell_far : ¬ ∀ lon lat : ℚ, -180 ≤ lon ∧ lon ≤ 180 → -90 ≤ lat ∧ lat ≤ 90 →
    Names (asBytes (geohashEncode lon lat)) lon lat := by
  intro all
  have named := all 10 10 ⟨by norm_num, by norm_num⟩ ⟨by norm_num, by norm_num⟩
  rw [names_iff ⟨by norm_num [world], by norm_num [world]⟩ ⟨by norm_num [world], by norm_num [world]⟩] at named
  norm_num at named

end Geohash

end NexradeCache
