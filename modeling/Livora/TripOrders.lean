import Livora.ExactDecimals
import Livora.NearestFirst
import Livora.NumberTexts
import Livora.RewardStrategies
import Livora.RoundingOrder
import Mathlib.Data.List.Perm.Basic
import Mathlib.Data.List.Sort
import Mathlib.Tactic.Ring

/-! The order of the stops of a collector's trip: as the routing service answers it, and the nearest
first where it does not answer. -/

namespace Livora.TripOrders

open DoubleRounding NumberTexts NearestFirst

instance : LinearOrder Double := LinearOrder.lift' Double.val fun _ _ => Double.ext_val

structure Position where
  lat : Double
  lng : Double
deriving DecidableEq

/-- A stop as an object: `ref` says which one. -/
structure TripWaypoint where
  ref : ℕ
  id : String
  position : Position
  label : Option String
deriving DecidableEq

/-- A parsed body, every waypoint an object of its own. -/
structure OptimizeTrip where
  collector : Position
  waypoints : List TripWaypoint
  own : (waypoints.map TripWaypoint.ref).Nodup

/-- A waypoint with its place before and after; without a waypoint the place is out of the list. -/
structure OrderedWaypoint where
  waypoint : Option TripWaypoint
  originalIndex : ℤ
  optimizedOrder : ℕ
deriving DecidableEq

abbrev Point := ScriptNumber × ScriptNumber

structure TripAnswer where
  orderedWaypoints : List OrderedWaypoint
  totalDistanceMeters : ScriptNumber
  totalDurationSeconds : ScriptNumber
  etaMinutes : ScriptNumber
  coordinates : List Point
  isFallback : Bool
deriving DecidableEq

/-- `waypoints.indexOf(next)` -/
def indexOf (waypoints : List TripWaypoint) (next : TripWaypoint) : ℤ :=
  match waypoints.findIdx? fun w => decide (w.ref = next.ref) with
  | some i => i
  | none => -1

/-! ### The nearest first -/

/-- `Number(x.toFixed(digits))` -/
def toFixed (digits : ℕ) : ScriptNumber → ScriptNumber
  | .finite x => .ofRat (RewardStrategies.toFixed x.val digits)
  | x => x

/-- A coordinate at `f` thirds of the way. -/
def between (current next : Double) (f : ℕ) : ScriptNumber :=
  let frac := (ScriptNumber.ofRat f).div (.ofRat 3)
  toFixed 6 (.add (.finite current) (.mul (.sub (.finite next) (.finite current)) frac))

def segment (current next : Position) : List Point :=
  [1, 2, 3].map fun f => (between current.lng next.lng f, between current.lat next.lat f)

structure TripState where
  unvisited : List TripWaypoint
  ordered : List OrderedWaypoint
  current : Position
  totalKm : ScriptNumber
  allCoords : List Point
  stepOrder : ℕ
deriving DecidableEq

section Greedy

variable (haversineKm : Position → Position → Double)

def arrive (waypoints : List TripWaypoint) (s : TripState) (next : TripWaypoint)
    (minDistance : ScriptNumber) :
    TripState :=
  { unvisited := s.unvisited
    ordered := s.ordered ++ [⟨some next, indexOf waypoints next, s.stepOrder⟩]
    current := next.position
    totalKm := s.totalKm.add minDistance
    allCoords := s.allCoords ++ segment s.current next.position
    stepOrder := s.stepOrder + 1 }

/-- The body of the loop; none where there is nothing to remove. -/
def visit (waypoints : List TripWaypoint) (s : TripState) : Option TripState :=
  let nearest := scan (fun w => haversineKm s.current w.position) s.unvisited
  let minDistance := nearest.2.elim (.infinite false) ScriptNumber.finite
  s.unvisited[nearest.1]?.map fun next =>
    { arrive waypoints s next minDistance with unvisited := s.unvisited.eraseIdx nearest.1 }

theorem length_visit {waypoints : List TripWaypoint} {s s' : TripState}
    (h : visit haversineKm waypoints s = some s') : s'.unvisited.length < s.unvisited.length := by
  obtain ⟨next, hnext, rfl⟩ := Option.map_eq_some_iff.mp h
  have hlt := (List.getElem?_eq_some_iff.mp hnext).1
  show (s.unvisited.eraseIdx _).length < _
  rw [List.length_eraseIdx_of_lt hlt]
  omega

def loop (waypoints : List TripWaypoint) (s : TripState) : Option TripState :=
  if s.unvisited = [] then some s
  else
    match _h : visit haversineKm waypoints s with
    | some s' => loop waypoints s'
    | none => none
termination_by s.unvisited.length
decreasing_by exact length_visit haversineKm _h

def answerOf (s : TripState) : TripAnswer :=
  let distanceMeters := ((s.totalKm.mul (.ofRat (13 / 10))).mul (.ofRat 1000)).round
  let speedMps := (ScriptNumber.ofRat 22).div (.ofRat (18 / 5))
  let durationSeconds := ScriptNumber.max (.ofRat 60) (distanceMeters.div speedMps).round
  { orderedWaypoints := s.ordered
    totalDistanceMeters := distanceMeters
    totalDurationSeconds := durationSeconds
    etaMinutes := .max (.ofRat 1) (durationSeconds.div (.ofRat 60)).round
    coordinates := s.allCoords
    isFallback := true }

def greedyTripFallback (dto : OptimizeTrip) : Option TripAnswer :=
  (loop haversineKm dto.waypoints
    { unvisited := dto.waypoints
      ordered := []
      current := dto.collector
      totalKm := .ofRat 0
      allCoords := [(.finite dto.collector.lng, .finite dto.collector.lat)]
      stepOrder := 1 }).map answerOf

end Greedy

/-! ### As the routing service answers -/

structure OsrmTrip where
  distance : ScriptNumber
  duration : ScriptNumber
  coordinates : List Point

/-- The body of an answer, its `waypoints` as their `waypoint_index`es. -/
structure OsrmAnswer where
  code : String
  trip : Option OsrmTrip
  waypoints : Option (List Double)

/-- `(a, b) => a.waypoint_index - b.waypoint_index` does not put `b` first. -/
def inOrder (a b : Double × ℕ) : Bool := decide (fl (a.1.val - b.1.val) ≤ 0)

def osrmOrder (waypoints : List TripWaypoint) (found : List Double) : List OrderedWaypoint :=
  let kept := found.zipIdx.filter fun wp => decide (0 < wp.2)
  (kept.mergeSort inOrder).mapIdx fun order wp => ⟨waypoints[wp.2 - 1]?, (wp.2 : ℤ) - 1, order + 1⟩

def tripOf (json : OsrmAnswer) : Option OsrmTrip :=
  if json.code = "Ok" then json.trip.filter fun trip => !trip.coordinates.isEmpty else none

/-- Numbers and geometry of a single leg, as `calculateRoute` answers them. -/
structure Route where
  distanceMeters : ScriptNumber
  durationSeconds : ScriptNumber
  etaMinutes : ScriptNumber
  coordinates : List Point
  isFallback : Bool

/-- `answer` is none where the request fails. -/
def optimizeTrip (haversineKm : Position → Position → Double)
    (calculateRoute : Position → Position → Route)
    (answer : Option OsrmAnswer) (dto : OptimizeTrip) : Option TripAnswer :=
  match dto.waypoints with
  | [] => some ⟨[], .ofRat 0, .ofRat 0, .ofRat 0, [], false⟩
  | [single] =>
    let route := calculateRoute dto.collector single.position
    some ⟨[⟨some single, 0, 1⟩], route.distanceMeters, route.durationSeconds, route.etaMinutes,
      route.coordinates, route.isFallback⟩
  | _ =>
    match answer.bind fun json => (tripOf json).map fun trip => (trip, json.waypoints.getD []) with
    | some (trip, found) =>
      some
        { orderedWaypoints := osrmOrder dto.waypoints found
          totalDistanceMeters := trip.distance.round
          totalDurationSeconds := trip.duration.round
          etaMinutes := .max (.ofRat 1) (trip.duration.div (.ofRat 60)).round
          coordinates := trip.coordinates
          isFallback := false }
    | none => greedyTripFallback haversineKm dto

/-! ### A run of the loop -/

variable {haversineKm : Position → Position → Double} {waypoints : List TripWaypoint}
    {s : TripState}
  {current : Position} {t : List (TripWaypoint × Double)}

theorem visit_eq (haversineKm : Position → Position → Double) (waypoints : List TripWaypoint)
    (h : s.unvisited ≠ []) :
    ∃ i next,
      IsFirstLeast (fun w : TripWaypoint => haversineKm s.current w.position) s.unvisited i next ∧
      visit haversineKm waypoints s = some
        { arrive waypoints s next (.finite (haversineKm s.current next.position)) with
          unvisited := s.unvisited.eraseIdx i } := by
  obtain ⟨next, hnext, hleast⟩ :=
    scan_spec (fun w : TripWaypoint => haversineKm s.current w.position) h
  refine ⟨_, next, hnext, ?_⟩
  rw [visit, hleast, hnext.here]
  rfl

/-- The points of a tour, without the one it begins at. -/
def points : Position → List (TripWaypoint × Double) → List Point
  | _, [] => []
  | current, (next, _) :: t => segment current next.position ++ points next.position t

def sumKm (totalKm : ScriptNumber) (t : List (TripWaypoint × Double)) : ScriptNumber :=
  t.foldl (fun sum leg => sum.add (.finite leg.2)) totalKm

def numbered (waypoints : List TripWaypoint) (stepOrder : ℕ) (t : List (TripWaypoint × Double)) :
    List OrderedWaypoint :=
  t.mapIdx fun k leg => ⟨some leg.1, indexOf waypoints leg.1, stepOrder + k⟩

def after (waypoints : List TripWaypoint) (s : TripState) (t : List (TripWaypoint × Double)) :
    TripState where
  unvisited := []
  ordered := s.ordered ++ numbered waypoints s.stepOrder t
  current := t.foldl (fun _ leg => leg.1.position) s.current
  totalKm := sumKm s.totalKm t
  allCoords := s.allCoords ++ points s.current t
  stepOrder := s.stepOrder + t.length

theorem numbered_cons (stepOrder : ℕ) (next : TripWaypoint) (leg : Double) :
    numbered waypoints stepOrder ((next, leg) :: t) =
      ⟨some next, indexOf waypoints next, stepOrder⟩ :: numbered waypoints (stepOrder + 1) t := by
  rw [numbered, List.mapIdx_cons, numbered]
  refine congrArg _ (List.mapIdx_eq_mapIdx_iff.mpr fun k hk => ?_)
  rw [Nat.add_assoc, Nat.add_comm 1 k]

theorem after_arrive (next : TripWaypoint) (leg : Double) (left : List TripWaypoint) :
    after waypoints { arrive waypoints s next (.finite leg) with unvisited := left } t =
      after waypoints s ((next, leg) :: t) := by
  refine (TripState.mk.injEq ..).mpr ⟨rfl, ?_, rfl, rfl, List.append_assoc .., ?_⟩
  · rw [numbered_cons]
    exact List.append_assoc ..
  · show s.stepOrder + 1 + t.length = s.stepOrder + (t.length + 1)
    omega

theorem loop_eq (haversineKm : Position → Position → Double) (waypoints : List TripWaypoint)
    (s : TripState) :
    ∃ t, Tour (fun current w =>
      haversineKm current w.position) TripWaypoint.position s.current s.unvisited t ∧
      loop haversineKm waypoints s = some (after waypoints s t) := by
  induction hn : s.unvisited.length using Nat.strong_induction_on generalizing s with
  | h n ih =>
    by_cases hnone : s.unvisited = []
    · refine ⟨[], hnone ▸ Tour.done _, ?_⟩
      rw [loop, if_pos hnone]
      simp [after, numbered, sumKm, points, ← hnone]
    · obtain ⟨i, next, hnext, hvisit⟩ := visit_eq haversineKm waypoints hnone
      obtain ⟨t, ht, hloop⟩ := ih _ (hn ▸ length_visit haversineKm hvisit) _ rfl
      refine ⟨_, Tour.next hnext ht, ?_⟩
      rw [loop, if_neg hnone, ← after_arrive next _ (s.unvisited.eraseIdx i), ← hloop]
      split
      · rename_i s' hs'
        rw [Option.some.inj (hvisit.symm.trans hs')]
      · rename_i hs'
        exact absurd (hvisit.symm.trans hs') (by simp)

/-! ### Places -/

/-- Every waypoint once, numbered from one on and with the place it came from. -/
structure Numbered (waypoints : List TripWaypoint) (ordered : List OrderedWaypoint) : Prop where
  perm : (ordered.map OrderedWaypoint.waypoint).Perm (waypoints.map some)
  order : ordered.map OrderedWaypoint.optimizedOrder = List.range' 1 waypoints.length
  index : (ordered.map OrderedWaypoint.originalIndex).Perm
    ((List.range waypoints.length).map Int.ofNat)
  same : ∀ o ∈ ordered, ∃ i : ℕ, o.originalIndex = i ∧ waypoints[i]? = o.waypoint

theorem indexOf_getElem (hown : (waypoints.map TripWaypoint.ref).Nodup) {i : ℕ}
    (hi : i < waypoints.length) :
    indexOf waypoints waypoints[i] = i := by
  have hfound : waypoints.findIdx? (fun w => decide (w.ref = waypoints[i].ref)) = some i := by
    refine List.findIdx?_eq_some_iff_getElem.mpr ⟨hi, by simp, fun j hj => ?_⟩
    have hne := (List.pairwise_iff_getElem.mp hown) j i (by simp; omega) (by simpa using hi) hj
    simpa using hne
  rw [indexOf, hfound]

theorem map_indexOf (hown : (waypoints.map TripWaypoint.ref).Nodup) :
    waypoints.map (indexOf waypoints) = (List.range waypoints.length).map Int.ofNat := by
  refine List.ext_getElem (by simp) fun i hi _ => ?_
  rw [List.length_map] at hi
  rw [List.getElem_map, List.getElem_map, List.getElem_range, indexOf_getElem hown hi]
  rfl

theorem numbered_tour (hown : (waypoints.map TripWaypoint.ref).Nodup)
    (ht : (t.map Prod.fst).Perm waypoints) : Numbered waypoints (numbered waypoints 1 t) := by
  have hlength : t.length = waypoints.length := by rw [← ht.length_eq, List.length_map]
  have hwaypoint : (numbered waypoints 1 t).map OrderedWaypoint.waypoint =
      (t.map Prod.fst).map some := by
    refine List.ext_getElem (by simp [numbered]) fun k _ _ => ?_
    simp [numbered]
  have hindex : (numbered waypoints 1 t).map OrderedWaypoint.originalIndex =
      (t.map Prod.fst).map (indexOf waypoints) := by
    refine List.ext_getElem (by simp [numbered]) fun k _ _ => ?_
    simp [numbered]
  refine ⟨?_, ?_, ?_, fun o ho => ?_⟩
  · rw [hwaypoint]
    exact ht.map some
  · refine List.ext_getElem (by simp [numbered, hlength]) fun k _ _ => ?_
    simp [numbered]
  · rw [hindex, ← map_indexOf hown]
    exact ht.map _
  · obtain ⟨k, hk, rfl⟩ := List.getElem_of_mem ho
    have hkt : k < t.length := by simpa [numbered] using hk
    have hmem : t[k].1 ∈ waypoints := ht.mem_iff.mp (List.mem_map_of_mem (List.getElem_mem hkt))
    obtain ⟨i, hi, hget⟩ := List.getElem_of_mem hmem
    refine ⟨i, ?_, ?_⟩
    · simp [numbered, ← hget, indexOf_getElem hown hi]
    · simp [numbered, ← hget, hi]

/-! ### The line through the stops -/

/-- A coordinate as it is validated: not past half a turn. -/
def OnEarth (p : Position) : Prop := |p.lat.val| ≤ 90 ∧ |p.lng.val| ≤ 180

def ShowsTo (shown : ScriptNumber) (x : Double) : Prop :=
  ∃ d : Double, shown = .finite d ∧ |d.val - x.val| < 1 / 10 ^ 6

theorem ofRat_of_lt {x : ℚ} {k : ℤ} (hx : |x| < 2 ^ k) (hk : -1021 ≤ k) (hk' : k ≤ 1023) :
    ∃ d : Double, ScriptNumber.ofRat x = .finite d ∧ d.val = fl x := by
  obtain ⟨d, hd, hval⟩ := Double.exists_ofRat? (finite_fl_of_lt hx hk hk')
  exact ⟨d, ScriptNumber.ofRat_eq_finite.mpr hd, hval⟩

theorem ofRat_natCast {n : ℕ} (h : n < 2 ^ 53) : ScriptNumber.ofRat n = .finite (.ofNat n h) :=
  ScriptNumber.ofRat_eq_finite.mpr (Double.ofRat?_val (Double.ofNat n h))

theorem three_thirds :
    (ScriptNumber.ofRat ((3 : ℕ) : ℚ)).div (.ofRat 3) = .finite (.ofNat 1 (by decide)) := by
  have hthree : ScriptNumber.ofRat 3 = .finite (.ofNat 3 (by decide)) :=
    ofRat_natCast (n := 3) (by decide)
  rw [show ((3 : ℕ) : ℚ) = 3 from rfl, hthree, ← ofRat_natCast (n := 1) (by decide)]
  simp [ScriptNumber.div, Double.ofNat]

theorem abs_toFixed_sub_le {x : ℚ} (hx : |x| < 2 ^ (9 : ℤ)) :
    |RewardStrategies.toFixed x 6 - x| ≤ 1 / (2 * 10 ^ 6) + 2 ^ (-44 : ℤ) := by
  have hsmall : ¬ (10 : ℚ) ^ 21 ≤ |x| := by
    norm_num at hx ⊢
    linarith
  have hrounded : ∀ y : ℚ, |y| < 2 ^ (9 : ℤ) →
      |fl (round (y * 10 ^ 6) / 10 ^ 6) - y| ≤ 1 / (2 * 10 ^ 6) + 2 ^ (-44 : ℤ) := by
    intro y hy
    have hround := ExactDecimals.abs_round_div_sub_le y 6
    have hlt : |(round (y * 10 ^ 6) : ℚ) / 10 ^ 6| < 2 ^ (10 : ℤ) := by
      have htri := abs_add_le ((round (y * 10 ^ 6) : ℚ) / 10 ^ 6 - y) y
      rw [sub_add_cancel] at htri
      norm_num at hround hy htri ⊢
      linarith
    have hfl := abs_fl_sub_le_of_lt hlt (by norm_num)
    have htri := abs_sub_le (fl (round (y * 10 ^ 6) / 10 ^ 6)) (round (y * 10 ^ 6) / 10 ^ 6) y
    norm_num at hfl hround htri ⊢
    linarith
  rw [RewardStrategies.toFixed, if_neg hsmall]
  split
  · have hneg := hrounded (-x) (by rwa [abs_neg])
    have hflip : -fl (round (-x * 10 ^ 6) / 10 ^ 6) - x =
        -(fl (round (-x * 10 ^ 6) / 10 ^ 6) - -x) := by ring
    rw [hflip, abs_neg]
    exact hneg
  · exact hrounded x hx

theorem between_three {current next : Double} (hc : |current.val| ≤ 180) (hn : |next.val| ≤ 180) :
    ShowsTo (between current next 3) next := by
  have hway : |next.val - current.val| < 2 ^ (9 : ℤ) := by
    have htri := abs_sub next.val current.val
    norm_num
    linarith
  obtain ⟨way, hway_eq, hway_val⟩ := ofRat_of_lt hway (by norm_num) (by norm_num)
  have hway_err := abs_fl_sub_le_of_lt hway (by norm_num)
  rw [← hway_val] at hway_err
  have hend : |current.val + way.val - next.val| ≤ 2 ^ (-45 : ℤ) := by
    have hdiff : current.val + way.val - next.val = way.val - (next.val - current.val) := by ring
    rw [hdiff]
    exact hway_err
  have hend_lt : |current.val + way.val| < 2 ^ (9 : ℤ) := by
    have htri := abs_add_le (current.val + way.val - next.val) next.val
    rw [sub_add_cancel] at htri
    norm_num at hend ⊢
    linarith
  obtain ⟨there, hthere_eq, hthere_val⟩ := ofRat_of_lt hend_lt (by norm_num) (by norm_num)
  have hthere_err := abs_fl_sub_le_of_lt hend_lt (by norm_num)
  rw [← hthere_val] at hthere_err
  have hthere : |there.val - next.val| ≤ 2 ^ (-44 : ℤ) := by
    have htri := abs_sub_le there.val (current.val + way.val) next.val
    norm_num at hend hthere_err htri ⊢
    linarith
  have hthere_lt : |there.val| < 2 ^ (9 : ℤ) := by
    have htri := abs_add_le (there.val - next.val) next.val
    rw [sub_add_cancel] at htri
    norm_num at hthere ⊢
    linarith
  have hfixed := abs_toFixed_sub_le hthere_lt
  have hshown_lt : |RewardStrategies.toFixed there.val 6| < 2 ^ (10 : ℤ) := by
    have htri := abs_add_le (RewardStrategies.toFixed there.val 6 - there.val) there.val
    rw [sub_add_cancel] at htri
    norm_num at hfixed hthere_lt ⊢
    linarith
  obtain ⟨shown, hshown_eq, hshown_val⟩ := ofRat_of_lt hshown_lt (by norm_num) (by norm_num)
  have hshown_err := abs_fl_sub_le_of_lt hshown_lt (by norm_num)
  rw [← hshown_val] at hshown_err
  refine ⟨shown, ?_, ?_⟩
  · rw [between, three_thirds]
    simp only [ScriptNumber.sub, hway_eq, ScriptNumber.mul]
    rw [show (Double.ofNat 1 (by decide)).val = 1 from Nat.cast_one, mul_one,
      ScriptNumber.ofRat_eq_finite.mpr (Double.ofRat?_val way), ScriptNumber.add, hthere_eq,
        toFixed, hshown_eq]
  · have htri := abs_sub_le shown.val (RewardStrategies.toFixed there.val 6) next.val
    have htri' := abs_sub_le (RewardStrategies.toFixed there.val 6) there.val next.val
    norm_num at hshown_err hfixed hthere htri htri' ⊢
    linarith

theorem length_points (current : Position) (t : List (TripWaypoint × Double)) :
    (points current t).length = 3 * t.length := by
  induction t generalizing current with
  | nil => rfl
  | cons leg t ih =>
    rw [points, List.length_append, ih, List.length_cons, segment, List.length_map]
    simp only [List.length_cons, List.length_nil]
    omega

theorem points_pass (hc : OnEarth current) (ht : ∀ leg ∈ t, OnEarth leg.1.position) {k : ℕ}
    {leg : TripWaypoint × Double} (hleg : t[k]? = some leg) :
    ∃ p, (points current t)[3 * k + 2]? = some p ∧ ShowsTo p.1 leg.1.position.lng ∧
      ShowsTo p.2 leg.1.position.lat := by
  induction t generalizing current k with
  | nil => simp at hleg
  | cons first t ih =>
    have hfirst : OnEarth first.1.position := ht first List.mem_cons_self
    have hsegment : (segment current first.1.position).length = 3 := rfl
    cases k with
    | zero =>
      obtain rfl : first = leg := by simpa using hleg
      refine ⟨_, List.getElem?_append_left (by rw [hsegment]; omega), ?_, ?_⟩
      · exact between_three hc.2 hfirst.2
      · exact between_three (hc.1.trans (by norm_num)) (hfirst.1.trans (by norm_num))
    | succ k =>
      obtain ⟨p, hp, hshows⟩ :=
        ih hfirst (fun leg hl => ht leg (List.mem_cons_of_mem _ hl)) (k := k)
        (by simpa using hleg)
      refine ⟨p, ?_, hshows⟩
      rw [points, List.getElem?_append_right (by rw [hsegment]; omega), hsegment, ← hp]
      congr 1

/-! ### The order of an answer -/

theorem representable_multiple {x : ℚ} (h : Representable x) : ∃ k :
    ℤ, x = k * 2 ^ (-1074 : ℤ) := by
  obtain ⟨m, e, rfl, -, he⟩ := h
  obtain ⟨n, hn⟩ := Int.eq_ofNat_of_zero_le (by omega : 0 ≤ e + 1074)
  refine ⟨m * 2 ^ n, ?_⟩
  rw [Int.cast_mul, Int.cast_pow, Int.cast_ofNat, mul_assoc, ← zpow_natCast,
    ← zpow_add₀ (by norm_num : (2 : ℚ) ≠ 0), ← hn, Int.add_neg_cancel_right]

theorem fl_sub_nonpos_iff (x y : Double) : fl (x.val - y.val) ≤ 0 ↔ x ≤ y := by
  refine ⟨fun h => ?_, fun h => fl_nonpos (sub_nonpos.mpr h)⟩
  by_contra hlt
  obtain ⟨m, hm⟩ := representable_multiple x.representable
  obtain ⟨n, hn⟩ := representable_multiple y.representable
  have hdiff : x.val - y.val = ((m - n : ℤ) : ℚ) * 2 ^ (-1074 : ℤ) := by
    rw [hm, hn, ← sub_mul, Int.cast_sub]
  have hpos : 0 < x.val - y.val := sub_pos.mpr (not_le.mp hlt)
  have hone : 1 ≤ m - n := by
    by_contra hle
    have hnonpos : ((m - n : ℤ) : ℚ) ≤ 0 := by exact_mod_cast (by omega : m - n ≤ 0)
    rw [hdiff] at hpos
    exact absurd hpos (not_lt.mpr (mul_nonpos_of_nonpos_of_nonneg hnonpos (by positivity)))
  have hleast : (2 : ℚ) ^ (-1074 : ℤ) ≤ x.val - y.val := by
    have hcast : (1 : ℚ) ≤ ((m - n : ℤ) : ℚ) := by exact_mod_cast hone
    rw [hdiff]
    exact le_mul_of_one_le_left (by positivity) hcast
  have hfixed : fl (2 ^ (-1074 : ℤ)) = 2 ^ (-1074 : ℤ) :=
    fl_of_representable ⟨1, -1074, by rw [Int.cast_one, one_mul], by norm_num, le_rfl⟩
  have hmono := fl_mono hleast
  rw [hfixed] at hmono
  have hstep : (0 : ℚ) < 2 ^ (-1074 : ℤ) := by positivity
  linarith

theorem inOrder_iff (a b : Double × ℕ) : inOrder a b = true ↔ a.1 ≤ b.1 := by
  rw [inOrder, decide_eq_true_eq, fl_sub_nonpos_iff]

section Answers

variable {found : List Double}

theorem kept_eq (found : List Double) :
    (found.zipIdx.filter fun wp => decide (0 < wp.2)) = found.tail.zipIdx 1 := by
  cases found with
  | nil => rfl
  | cons start rest =>
    rw [List.zipIdx_cons, List.filter_cons_of_neg (by simp)]
    refine List.filter_eq_self.mpr fun wp hwp => ?_
    have hle := List.le_snd_of_mem_zipIdx hwp
    rw [decide_eq_true_eq]
    omega

theorem perm_sorted (found : List Double) :
    ((found.tail.zipIdx 1).mergeSort inOrder).Perm (found.tail.zipIdx 1) :=
  List.mergeSort_perm _ _

theorem osrmOrder_eq (waypoints : List TripWaypoint) (found : List Double) :
    osrmOrder waypoints found = ((found.tail.zipIdx 1).mergeSort inOrder).mapIdx fun order wp =>
      ⟨waypoints[wp.2 - 1]?, (wp.2 : ℤ) - 1, order + 1⟩ := by
  rw [osrmOrder, kept_eq]

theorem map_waypoint_osrmOrder (waypoints : List TripWaypoint) (found : List Double) :
    (osrmOrder waypoints found).map OrderedWaypoint.waypoint =
      ((found.tail.zipIdx 1).mergeSort inOrder).map fun wp => waypoints[wp.2 - 1]? := by
  rw [osrmOrder_eq]
  refine List.ext_getElem (by simp) fun k _ _ => ?_
  simp

theorem map_index_osrmOrder (waypoints : List TripWaypoint) (found : List Double) :
    (osrmOrder waypoints found).map OrderedWaypoint.originalIndex =
      ((found.tail.zipIdx 1).mergeSort inOrder).map fun wp => (wp.2 : ℤ) - 1 := by
  rw [osrmOrder_eq]
  refine List.ext_getElem (by simp) fun k _ _ => ?_
  simp

theorem numbered_osrmOrder (hlength : found.length = waypoints.length + 1) :
    Numbered waypoints (osrmOrder waypoints found) := by
  have htail : found.tail.length = waypoints.length := by
    rw [List.length_tail, hlength, Nat.add_sub_cancel]
  have hsorted := perm_sorted found
  have hn : ((found.tail.zipIdx 1).mergeSort inOrder).length = waypoints.length := by
    rw [hsorted.length_eq, List.length_zipIdx, htail]
  refine ⟨?_, ?_, ?_, fun o ho => ?_⟩
  · rw [map_waypoint_osrmOrder]
    refine (hsorted.map _).trans
      (List.Perm.of_eq (List.ext_getElem (by simp [htail]) fun k hk _ => ?_))
    have hkw : k < waypoints.length := by simpa [hlength] using hk
    simp [hkw]
  · rw [osrmOrder_eq]
    refine List.ext_getElem (by simp [hn]) fun k _ _ => ?_
    simp [Nat.add_comm]
  · rw [map_index_osrmOrder]
    refine (hsorted.map _).trans
      (List.Perm.of_eq (List.ext_getElem (by simp [htail]) fun k _ _ => ?_))
    simp
  · rw [osrmOrder_eq] at ho
    obtain ⟨k, hk, rfl⟩ := List.mem_mapIdx.mp ho
    have hmem : ((found.tail.zipIdx 1).mergeSort inOrder)[k] ∈ found.tail.zipIdx 1 :=
      hsorted.mem_iff.mp (List.getElem_mem hk)
    have hle := List.le_snd_of_mem_zipIdx hmem
    exact ⟨_, (Int.natCast_sub hle).symm, rfl⟩

def answeredIndex (found : List Double) (o : OrderedWaypoint) : Option Double :=
  found[(o.originalIndex + 1).toNat]?

theorem ascending_osrmOrder (hnodup : found.Nodup) :
    (osrmOrder waypoints found).Pairwise fun a b =>
      ∃ x y, answeredIndex found a = some x ∧ answeredIndex found b = some y ∧ x < y := by
  have hsorted := perm_sorted found
  have hle : ((found.tail.zipIdx 1).mergeSort inOrder).Pairwise fun a b => inOrder a b :=
    List.pairwise_mergeSort
      (fun a b c hab hbc => by
        rw [inOrder_iff] at *
        exact hab.trans hbc)
      (fun a b => by
        rw [Bool.or_eq_true, inOrder_iff, inOrder_iff]
        exact le_total _ _) _
  have hne : ((found.tail.zipIdx 1).mergeSort inOrder).Pairwise fun a b => a.1 ≠ b.1 := by
    refine List.pairwise_map.mp ((hsorted.map Prod.fst).nodup_iff.mpr ?_)
    rw [List.zipIdx_map_fst]
    exact hnodup.tail
  have hindex : ∀ wp ∈ found.tail.zipIdx 1, found[wp.2]? = some wp.1 := by
    intro wp hwp
    have hle := List.le_snd_of_mem_zipIdx hwp
    have hget := List.mk_mem_zipIdx_iff_le_and_getElem?_sub.mp hwp
    rw [List.getElem?_tail] at hget
    rw [← hget.2]
    congr 1
    omega
  rw [osrmOrder_eq, List.pairwise_iff_getElem]
  intro i j hi hj hij
  rw [List.length_mapIdx] at hi hj
  have hlt := lt_of_le_of_ne ((inOrder_iff _ _).mp (List.pairwise_iff_getElem.mp hle i j hi hj hij))
    (List.pairwise_iff_getElem.mp hne i j hi hj hij)
  refine ⟨_, _, ?_, ?_, hlt⟩
  · rw [List.getElem_mapIdx, answeredIndex, ← hindex _ (hsorted.mem_iff.mp (List.getElem_mem hi))]
    congr 1
    simp
  · rw [List.getElem_mapIdx, answeredIndex, ← hindex _ (hsorted.mem_iff.mp (List.getElem_mem hj))]
    congr 1
    simp

end Answers

/-! ### The whole trip -/

/-- The kilometres of the legs, from the first to the last, as metres of a winding way. -/
def metres (legs : List Double) : ScriptNumber :=
  let totalKm := legs.foldl (fun (sum : ScriptNumber) leg => sum.add (.finite leg)) (.ofRat 0)
  ((totalKm.mul (.ofRat (13 / 10))).mul (.ofRat 1000)).round

theorem optimizeTrip_answered (haversineKm : Position → Position → Double)
    (calculateRoute : Position → Position → Route) {dto : OptimizeTrip} {json : OsrmAnswer}
    {trip : OsrmTrip}
    {found : List Double} (htwo : 2 ≤ dto.waypoints.length) (htrip : tripOf json = some trip)
    (hfound : json.waypoints = some found) :
    ∃ answer, optimizeTrip haversineKm calculateRoute (some json) dto = some answer ∧
      answer.orderedWaypoints = osrmOrder dto.waypoints found := by
  unfold optimizeTrip
  split
  · rename_i h
    simp [h] at htwo
  · rename_i h
    simp [h] at htwo
  · simp [htrip, hfound]

theorem greedyTripFallback_eq (haversineKm : Position → Position → Double) (dto : OptimizeTrip) :
    ∃ trip t, greedyTripFallback haversineKm dto = some trip ∧
      Tour (fun current w =>
        haversineKm current w.position) TripWaypoint.position dto.collector dto.waypoints t ∧
      trip.orderedWaypoints = numbered dto.waypoints 1 t ∧
      trip.totalDistanceMeters = metres (t.map Prod.snd) ∧
      trip.coordinates =
        (.finite dto.collector.lng, .finite dto.collector.lat) :: points dto.collector t := by
  obtain ⟨t, ht, hloop⟩ := loop_eq haversineKm dto.waypoints
    { unvisited := dto.waypoints
      ordered := []
      current := dto.collector
      totalKm := .ofRat 0
      allCoords := [(.finite dto.collector.lng, .finite dto.collector.lat)]
      stepOrder := 1 }
  refine ⟨_, t, congrArg (Option.map answerOf) hloop, ht, rfl, ?_, rfl⟩
  rw [metres, List.foldl_map]
  rfl

/-- Without an answer the trip goes to a nearest stop each time, the first of them, and its line is
at every stop to six decimals; with an answer of one waypoint for every coordinate it goes by the
answer's indices. -/
theorem trip_visits_each_once (haversineKm : Position → Position → Double) (dto : OptimizeTrip) :
    (∃ trip t, greedyTripFallback haversineKm dto = some trip ∧
      Tour (fun current w =>
        haversineKm current w.position) TripWaypoint.position dto.collector dto.waypoints t ∧
      trip.orderedWaypoints.map OrderedWaypoint.waypoint = t.map (fun leg => some leg.1) ∧
      Numbered dto.waypoints trip.orderedWaypoints ∧
      trip.totalDistanceMeters = metres (t.map Prod.snd) ∧
      trip.coordinates.length = 3 * dto.waypoints.length + 1 ∧
      (OnEarth dto.collector → (∀ w ∈ dto.waypoints, OnEarth w.position) →
        ∀ k leg, t[k]? = some leg → ∃ p, trip.coordinates[3 * (k + 1)]? = some p ∧
          ShowsTo p.1 leg.1.position.lng ∧ ShowsTo p.2 leg.1.position.lat)) ∧
    ∀ calculateRoute json trip found, 2 ≤ dto.waypoints.length → tripOf json = some trip →
      json.waypoints = some found → found.length = dto.waypoints.length + 1 → found.Nodup →
      ∃ answer, optimizeTrip haversineKm calculateRoute (some json) dto = some answer ∧
        Numbered dto.waypoints answer.orderedWaypoints ∧
        answer.orderedWaypoints.Pairwise fun a b =>
          ∃ x y, answeredIndex found a = some x ∧ answeredIndex found b = some y ∧ x < y := by
  refine ⟨?_, ?_⟩
  · obtain ⟨trip, t, htrip, ht, hordered, hmetres, hline⟩ := greedyTripFallback_eq haversineKm dto
    refine ⟨trip, t, htrip, ht, ?_, hordered ▸ numbered_tour dto.own ht.perm, hmetres, ?_, ?_⟩
    · rw [hordered]
      refine List.ext_getElem (by simp [numbered]) fun k _ _ => ?_
      simp [numbered]
    · rw [hline, List.length_cons, length_points, ht.length_eq]
    · intro hc hw k leg hleg
      have hearth : ∀ leg ∈ t, OnEarth leg.1.position := fun leg hl =>
        hw _ (ht.perm.mem_iff.mp (List.mem_map_of_mem hl))
      rw [hline]
      exact points_pass hc hearth hleg
  · intro calculateRoute json trip found htwo htrip hfound hlength hnodup
    obtain ⟨answer, hanswer, hordered⟩ := optimizeTrip_answered haversineKm calculateRoute htwo
      htrip hfound
    exact ⟨answer, hanswer, hordered ▸ numbered_osrmOrder hlength,
      hordered ▸ ascending_osrmOrder hnodup⟩

def zero : Double := .ofNat 0 (by decide)

theorem tiny_representable : Representable (1 / 2 ^ 24) :=
  ⟨1, -24, by norm_num, by norm_num, by norm_num⟩

theorem tiny_finite : |(1 / 2 ^ 24 : ℚ)| < 2 ^ 1024 := by
  rw [abs_of_pos (by norm_num)]
  exact lt_of_lt_of_le (by norm_num : (1 / 2 ^ 24 : ℚ) < 1) (one_le_pow₀ (by norm_num))

def tiny : Double := ⟨1 / 2 ^ 24, tiny_representable, tiny_finite⟩

def stop : TripWaypoint := ⟨0, "req-123", ⟨tiny, zero⟩, none⟩

def start : TripWaypoint := ⟨1, "req-124", ⟨zero, zero⟩, none⟩

theorem twoStops_own : ([stop, start].map TripWaypoint.ref).Nodup := by decide

def twoStops : OptimizeTrip := ⟨⟨zero, zero⟩, [stop, start], twoStops_own⟩

/-- The line stays where the trip begins and does not pass through the stop. -/
theorem stop_off_the_line :
    ∃ trip, greedyTripFallback (fun _ _ => tiny) twoStops = some trip ∧
      (.finite stop.position.lng, .finite stop.position.lat) ∉ trip.coordinates := by
  obtain ⟨trip, t, htrip, ht, -, -, hline⟩ := greedyTripFallback_eq (fun _ _ => tiny) twoStops
  refine ⟨trip, htrip, ?_⟩
  have hperm : (t.map Prod.fst).Perm [stop, start] := ht.perm
  obtain ⟨a, b, rfl⟩ : ∃ a b, t = [a, b] := List.length_eq_two.mp (by simpa using hperm.length_eq)
  have hstop : stop = a.1 ∨ stop = b.1 := by simpa using hperm.mem_iff.mpr List.mem_cons_self
  have hstart : start = a.1 ∨ start = b.1 := by
    simpa using hperm.mem_iff.mpr (List.mem_cons_of_mem stop (List.mem_singleton_self start))
  have hne : stop ≠ start := fun h => absurd (congrArg TripWaypoint.ref h) (by decide)
  rw [hline, points, points, points]
  rcases hstop with hstop | hstop <;> rcases hstart with hstart | hstart
  · exact absurd (hstop.trans hstart.symm) hne
  · rw [← hstop, ← hstart]
    decide +kernel
  · rw [← hstop, ← hstart]
    decide +kernel
  · exact absurd (hstop.trans hstart.symm) hne

end Livora.TripOrders
