import YamlNavigator.Document.Path
import YamlNavigator.Proofs.Document.Route
import YamlNavigator.Proofs.Text.Parts

/-!
The query path of the end of a route.

* `Path.dotIndices_append_of_stops`: indices are written behind dots in each step of a path by
  itself;
* `Crossing.dotted`, `Path.dotIndices_route`: the steps of any route as they stand in query paths;
* `toList_canonical_route`: they make the query path, unless a step keeps a bracket;
* `IsNamed`, `nameOf`, `canonical_eq_iff`: the query path of the end of a route, if it has one.
-/

namespace YamlNavigator

open Text

/-! ### Steps in a path -/

namespace Path

/-- A text that cannot go on with the index that a text before it has begun: it is empty, or begins
with a dot or an opening bracket. -/
def Stops (t : List Char) : Prop := ∀ c ∈ t.head?, c = '.' ∨ c = '['

/-- An index is closed before a text that cannot go on with it, or it is none. -/
lemma index?_append {t : List Char} (ht : Stops t) (s : List Char) :
    index? (s ++ t) = (index? s).map fun r => (r.1, r.2 ++ t) := by
  have hdot : isDigit '.' = false := by decide
  have hopen : isDigit '[' = false := by decide
  rw [index?, index?, List.takeWhile_append, List.dropWhile_append]
  by_cases hall : (s.takeWhile isDigit).length = s.length
  · -- all of `s` are digits, and no bracket follows
    have hdrop : s.dropWhile isDigit = [] := by
      have := congrArg List.length (List.takeWhile_append_dropWhile (p := isDigit) (l := s))
      rw [List.length_append] at this
      exact List.eq_nil_of_length_eq_zero (by omega)
    rw [if_pos hall, hdrop]
    cases t with
    | nil => simp
    | cons c u =>
        rcases ht c rfl with rfl | rfl
        · simp [hdot]
        · simp [hopen]
  · have hdrop : s.dropWhile isDigit ≠ [] := by
      intro hnil
      have := congrArg List.length (List.takeWhile_append_dropWhile (p := isDigit) (l := s))
      rw [hnil, List.append_nil] at this
      exact hall this
    obtain ⟨c, rest, hcons⟩ := List.exists_cons_of_ne_nil hdrop
    rw [if_neg hall, hcons]
    cases s.takeWhile isDigit with
    | nil => simp
    | cons d ds => by_cases hc : c = ']' <;> simp [hc]

/-- What is in brackets is written behind a dot if it is an index. -/
lemma dotIndices_bracket (s : List Char) : dotIndices ('[' :: s) =
    match index? s with
    | some (ds, rest) => '.' :: ds ++ dotIndices rest
    | none => '[' :: dotIndices s := by
  rw [dotIndices, if_pos rfl]
  split
  · next ds rest h => simp only [h]
  · next h => simp only [h]

/-- An index in brackets is written behind a dot. -/
lemma dotIndices_index {ds : List Char} (hne : ds ≠ []) (hds : ∀ c ∈ ds, isDigit c = true)
    (t : List Char) : dotIndices ('[' :: (ds ++ ']' :: t)) = '.' :: (ds ++ dotIndices t) := by
  have hindex : index? (ds ++ ']' :: t) = some (ds, t) := by
    have hclose : isDigit ']' = false := by decide
    obtain ⟨d, ds, rfl⟩ := List.exists_cons_of_ne_nil hne
    rw [index?, List.takeWhile_append_of_pos hds, List.dropWhile_append_of_pos hds,
      List.takeWhile_cons_of_neg (by simp [hclose]), List.dropWhile_cons_of_neg (by simp [hclose])]
    simp
  rw [dotIndices_bracket, hindex]
  rfl

/-- Text without an opening bracket stays as it is. -/
lemma dotIndices_of_not_mem {s : List Char} (h : '[' ∉ s) : dotIndices s = s := by
  induction s with
  | nil => rw [dotIndices]
  | cons c s ih =>
      obtain ⟨hc, hs⟩ := not_or.mp (fun hmem => h (List.mem_cons.mpr hmem))
      rw [dotIndices, if_neg (Ne.symm hc), ih hs]

/-- Indices are written behind dots before and behind such a place apart. -/
lemma dotIndices_append_of_stops {t : List Char} (ht : Stops t) (s : List Char) :
    dotIndices (s ++ t) = dotIndices s ++ dotIndices t := by
  induction s using dotIndices.induct with
  | case1 => rw [List.nil_append, dotIndices]; rfl
  | case2 s ds rest hindex _ ih =>
      have happend : index? (s ++ t) = some (ds, rest ++ t) := by rw [index?_append ht, hindex]; rfl
      rw [List.cons_append, dotIndices_bracket, dotIndices_bracket, happend, hindex]
      dsimp only
      rw [ih, List.append_assoc]
  | case3 s hindex ih =>
      have happend : index? (s ++ t) = none := by rw [index?_append ht, hindex]; rfl
      rw [List.cons_append, dotIndices_bracket, dotIndices_bracket, happend, hindex]
      dsimp only
      rw [ih, List.cons_append]
  | case4 c s hc ih =>
      rw [List.cons_append, dotIndices, if_neg hc, ih, dotIndices, if_neg hc, List.cons_append]

/-- A text is not empty if it was not before indices were written behind dots. -/
lemma dotIndices_eq_nil_iff {s : List Char} : dotIndices s = [] ↔ s = [] := by
  cases s with
  | nil => simp [dotIndices]
  | cons c s =>
      refine iff_of_false ?_ (List.cons_ne_nil c s)
      by_cases hc : c = '['
      · subst hc
        rw [dotIndices_bracket]
        cases index? s <;> simp
      · rw [dotIndices, if_neg hc]
        exact List.cons_ne_nil _ _

end Path

/-- The text of a step in a query path: indices in the segment of a key are written behind dots as
well. -/
def Crossing.dotted : Crossing → List Char
  | key segment => Path.dotIndices segment.toList
  | item index => (toString index).toList

namespace Path

/-- A route goes on behind a step. -/
lemma stops_pathOf (r : List Crossing) : Stops (pathOf r) := by
  rcases r with _ | ⟨x, r⟩
  · intro c hc
    cases hc
  · intro c hc
    cases x with
    | key segment =>
        cases hc
        exact .inl rfl
    | item index =>
        cases hc
        exact .inr rfl

/-- What a route adds to a path, with dots only. -/
lemma dotIndices_route : ∀ r : List Crossing,
    dotIndices (pathOf r) = r.flatMap fun x => '.' :: x.dotted
  | [] => by rw [pathOf, List.flatMap_nil, dotIndices]; rfl
  | .key segment :: r => by
      have hdot : '.' ≠ '[' := by decide
      rw [List.flatMap_cons, ← dotIndices_route r, pathOf, List.flatMap_cons, ← pathOf]
      show dotIndices ('.' :: (segment.toList ++ pathOf r)) = _
      rw [dotIndices, if_neg hdot, dotIndices_append_of_stops (stops_pathOf r)]
      rfl
  | .item index :: r => by
      obtain ⟨hne, hdigits⟩ := digits_toString index
      rw [List.flatMap_cons, ← dotIndices_route r, pathOf, List.flatMap_cons, ← pathOf]
      show dotIndices ('[' :: (toString index).toList ++ [']'] ++ pathOf r) = _
      rw [List.append_assoc, List.cons_append, List.singleton_append,
        dotIndices_index hne fun c hc => isDigit_of_charIsDigit (hdigits c hc)]
      rfl

end Path

/-! ### Query paths of routes -/

/-- Does the step keep a bracket, so that what is behind it has no query path? -/
def Crossing.isHidden (x : Crossing) : Bool := Path.hasBracket x.dotted

/-- The query path of the end of a route: none if a step keeps a bracket, else the steps with dots
between them. -/
lemma toList_canonical_route {path : String} {r : List Crossing}
    (hpath : path.toList = '$' :: pathOf r) : (Path.canonical path).toList =
      if r.any Crossing.isHidden then [] else joinWith ['.'] (r.map Crossing.dotted) := by
  have hcontains : ∀ c : Char, c ≠ '.' → (r.flatMap fun x => '.' :: x.dotted).contains c =
      r.any fun x => x.dotted.contains c := by
    intro c hc
    rw [Bool.eq_iff_iff]
    simp [List.contains_eq_mem, hc]
  have hbracket : Path.hasBracket (r.flatMap fun x => '.' :: x.dotted) =
      r.any Crossing.isHidden := by
    rw [Path.hasBracket, hcontains '[' (by decide), hcontains ']' (by decide), Bool.eq_iff_iff]
    simp only [Bool.or_eq_true, List.any_eq_true, Crossing.isHidden, Path.hasBracket]
    constructor
    · rintro (⟨x, hx, h⟩ | ⟨x, hx, h⟩)
      · exact ⟨x, hx, .inl h⟩
      · exact ⟨x, hx, .inr h⟩
    · rintro ⟨x, hx, h | h⟩
      · exact .inl ⟨x, hx, h⟩
      · exact .inr ⟨x, hx, h⟩
  rw [Path.canonical, String.toList_ofList, hpath, Path.canonicalChars, Path.dotIndices_route,
    hbracket]
  split
  · rfl
  · rcases r with _ | ⟨x, r⟩
    · rfl
    · have hjoin : ((x :: r).flatMap fun x => '.' :: x.dotted) =
          '.' :: joinWith ['.'] ((x :: r).map Crossing.dotted) := by
        rw [← flatMap_cons_eq_joinWith (by simp), List.flatMap_map]
      rw [hjoin]
      rfl

/-- The text of a step is empty if and only if the step is the empty key. -/
lemma Crossing.dotted_eq_nil_iff {x : Crossing} : x.dotted = [] ↔ x = .key "" := by
  cases x with
  | key segment =>
      rw [dotted, Path.dotIndices_eq_nil_iff, key.injEq, ← String.toList_inj]
      rfl
  | item index => exact iff_of_false (digits_toString index).1 fun h => by cases h

/-- Has the end of a route a query path? It has none if the route is empty, if its only step is the
empty key, or if a step keeps a bracket. -/
def IsNamed (r : List Crossing) : Prop :=
  r ≠ [] ∧ r ≠ [.key ""] ∧ ∀ x ∈ r, x.isHidden = false

instance : DecidablePred IsNamed := fun r => inferInstanceAs (Decidable (r ≠ [] ∧ _))

/-- The steps of a route with dots between them, whatever the keys hold. -/
def nameOf (r : List Crossing) : String := String.ofList (joinWith ['.'] (r.map Crossing.dotted))

/-- The name of a route is empty if and only if the route is, or is the empty key alone. -/
lemma nameOf_eq_empty_iff {r : List Crossing} : nameOf r = "" ↔ r = [] ∨ r = [.key ""] := by
  rw [nameOf, ← String.toList_inj, String.toList_ofList]
  show joinWith ['.'] (r.map Crossing.dotted) = [] ↔ _
  rcases r with _ | ⟨x, _ | ⟨y, r⟩⟩
  · exact iff_of_true rfl (.inl rfl)
  · rw [List.map_singleton, joinWith, Crossing.dotted_eq_nil_iff, List.cons.injEq,
      and_iff_left rfl, or_iff_right (List.cons_ne_nil x [])]
  · -- there is a dot between two steps
    refine iff_of_false (fun h => ?_) (by simp)
    rw [List.map_cons, List.map_cons, joinWith] at h
    simp at h

/-- The name of a route that has one is not empty. -/
lemma IsNamed.nameOf_ne {r : List Crossing} (h : IsNamed r) : nameOf r ≠ "" := by
  intro hempty
  rcases nameOf_eq_empty_iff.mp hempty with hnil | hkey
  · exact h.1 hnil
  · exact h.2.1 hkey

/-- The query path of the end of a route is the name of the route, if it has one. -/
lemma canonical_eq_iff {path q : String} {r : List Crossing} (hpath : path.toList = '$' :: pathOf r)
    (hq : q ≠ "") : Path.canonical path = q ↔ IsNamed r ∧ nameOf r = q := by
  have hcanonical : Path.canonical path = if r.any Crossing.isHidden then "" else nameOf r := by
    rw [← String.toList_inj, toList_canonical_route hpath]
    split
    · rfl
    · rw [nameOf, String.toList_ofList]
  rw [hcanonical]
  split
  · next hhidden =>
      refine iff_of_false (fun h => hq h.symm) fun h => ?_
      obtain ⟨x, hx, hbracket⟩ := List.any_eq_true.mp hhidden
      rw [h.1.2.2 x hx] at hbracket
      cases hbracket
  · next hhidden =>
      refine ⟨fun h => ⟨?_, h⟩, And.right⟩
      have hne : ¬(r = [] ∨ r = [.key ""]) := fun hr => hq (h ▸ nameOf_eq_empty_iff.mpr hr)
      refine ⟨fun hr => hne (.inl hr), fun hr => hne (.inr hr), fun x hx => ?_⟩
      by_contra hbracket
      exact hhidden (List.any_eq_true.mpr ⟨x, hx, (Bool.not_eq_false _).mp hbracket⟩)

end YamlNavigator
