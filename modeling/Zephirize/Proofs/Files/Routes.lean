import Mathlib.Tactic
import Zephirize.Files.Store

/-!
# Routes through a store

A file is written after the directories on the way to it are made. Where a path leads, and which
directories are on the way, can be read off its segments (`Path.route?`). So the store only decides
whether the way is free: `Store.foldlM_enter` says when the directories can be made and what is
where afterwards, and `Store.foldlM_follow` that the way can then be followed.
-/

namespace Zephirize

/-- The directories on a way, and where it ends. -/
structure Route where
  directories : List Place
  target : Place

/-- The way along segments. Only named directories count as on the way. -/
def walk? (place : Place) : List String → Option Route
  | [] => some ⟨[], place⟩
  | segment :: rest =>
    if Path.isIdle segment then walk? place rest
    else if segment = ".." then walk? place.dropLast rest
    else if Store.admits segment then
      (walk? (place ++ [segment]) rest).map fun r =>
        ⟨(place ++ [segment]) :: r.directories, r.target⟩
    else none

/-- The route of a path to a file, which ends with the name of the file. -/
def Path.route? (p : Path) : Option Route := do
  let name ← p.segments.getLast?
  if isIdle name || name = ".." || !Store.admits name then none
  else (walk? [] p.segments.dropLast).map fun r => ⟨r.directories, r.target ++ [name]⟩

theorem Path.route?_eq_some_iff {p : Path} {way : List String} {name : String} {r : Route}
    (h : p.segments = way ++ [name]) :
    p.route? = some r ↔
      ¬ isIdle name = true ∧ name ≠ ".." ∧ Store.admits name = true ∧
        ∃ w, walk? [] way = some w ∧ ⟨w.directories, w.target ++ [name]⟩ = r := by
  simp [route?, h, and_assoc]

namespace Store

/-- The store has nothing but a directory at the place. -/
def Passable (s : Store) (place : Place) : Prop :=
  s.entry? place = none ∨ s.entry? place = some .directory

theorem lookup_filter_ne {place q : Place} (h : q ≠ place) (entries : List (Place × Entry)) :
    (entries.filter (·.1 ≠ place)).lookup q = entries.lookup q := by
  induction entries with
  | nil => rfl
  | cons entry rest ih =>
    obtain ⟨other, e⟩ := entry
    by_cases here : other = place
    · rw [List.filter_cons_of_neg (by simpa using here), ih, List.lookup_cons,
        (by simpa [here] using h : (q == other) = false)]
    · rw [List.filter_cons_of_pos (by simpa using here), List.lookup_cons, List.lookup_cons, ih]

theorem entry?_put {place : Place} (h : place ≠ []) (s : Store) (e : Entry) (q : Place) :
    Store.entry? (s.put place e) q = if q = place then some e else s.entry? q := by
  unfold entry? put
  by_cases same : q = place
  · subst same
    simp [h]
  · rw [if_neg same]
    split_ifs
    · rfl
    · rw [List.lookup_cons, (by simpa using same : (q == place) = false)]
      exact lookup_filter_ne same s.entries

/-! ### Making directories -/

/-- Entering a named directory makes sure that it is there. -/
theorem enter?_name {segment : String} (idle : ¬ Path.isIdle segment = true) (up : segment ≠ "..")
    (admitted : admits segment = true) (s : Store) (place : Place) :
    (∃ s', enter? (s, place) segment = some (s', place ++ [segment]) ∧
      s.Passable (place ++ [segment]) ∧
      ∀ q, s'.entry? q = if q = place ++ [segment] then some .directory else s.entry? q) ∨
    (enter? (s, place) segment = none ∧ ¬ s.Passable (place ++ [segment])) := by
  unfold enter?
  dsimp only
  rw [if_neg idle, if_neg up, if_pos admitted]
  cases found : s.entry? (place ++ [segment]) with
  | none =>
    exact .inl ⟨_, rfl, .inl found, entry?_put (by simp) s .directory⟩
  | some e =>
    cases e with
    | directory =>
      refine .inl ⟨s, rfl, .inr found, fun q => ?_⟩
      split_ifs with same
      · rw [same, found]
      · rfl
    | text content => exact .inr ⟨rfl, by simp [Passable, found]⟩
    | data => exact .inr ⟨rfl, by simp [Passable, found]⟩

/-- The directories along segments can be made when nothing else is in their places. Nothing but
them is made. -/
theorem foldlM_enter (segments : List String) (s : Store) (place : Place) :
    (∃ r s', walk? place segments = some r ∧ (∀ d ∈ r.directories, s.Passable d) ∧
      segments.foldlM enter? (s, place) = some (s', r.target) ∧
      ∀ q, s'.entry? q = if q ∈ r.directories then some .directory else s.entry? q) ∨
    (segments.foldlM enter? (s, place) = none ∧
      ∀ r, walk? place segments = some r → ∃ d ∈ r.directories, ¬ s.Passable d) := by
  induction segments generalizing s place with
  | nil => exact .inl ⟨⟨[], place⟩, s, rfl, by simp, rfl, by simp⟩
  | cons segment rest ih =>
    rw [List.foldlM_cons, walk?]
    by_cases idle : Path.isIdle segment = true
    · have entered : enter? (s, place) segment = some (s, place) := by simp [enter?, idle]
      rw [entered, if_pos idle]
      exact ih s place
    rw [if_neg idle]
    by_cases up : segment = ".."
    · have entered : enter? (s, place) segment = some (s, place.dropLast) := by
        rw [enter?, if_neg idle, if_pos up]
      rw [entered, if_pos up]
      exact ih s place.dropLast
    rw [if_neg up]
    by_cases admitted : admits segment = true
    · rw [if_pos admitted]
      rcases enter?_name idle up admitted s place with ⟨s₁, entered, free, entries⟩ | ⟨entered, taken⟩
      · have passable (d : Place) : s₁.Passable d ↔ s.Passable d := by
          unfold Passable
          rw [entries]
          split_ifs with same
          · rw [same]
            exact ⟨fun _ => free, fun _ => .inr rfl⟩
          · rfl
        rw [entered]
        rcases ih s₁ (place ++ [segment]) with ⟨r, s₂, walk, way, made, after⟩ | ⟨made, blocked⟩
        · refine .inl ⟨⟨(place ++ [segment]) :: r.directories, r.target⟩, s₂,
            by rw [walk, Option.map_some], ?_, made, fun q => ?_⟩
          · rw [List.forall_mem_cons]
            exact ⟨free, fun d hd => (passable d).1 (way d hd)⟩
          · rw [after, entries]
            by_cases here : q = place ++ [segment] <;> simp [here]
        · refine .inr ⟨made, fun r walk => ?_⟩
          obtain ⟨r', walk', rfl⟩ := Option.map_eq_some_iff.1 walk
          obtain ⟨d, hd, taken⟩ := blocked r' walk'
          exact ⟨d, List.mem_cons_of_mem _ hd, fun free => taken ((passable d).2 free)⟩
      · rw [entered]
        refine .inr ⟨rfl, fun r walk => ?_⟩
        obtain ⟨r', -, rfl⟩ := Option.map_eq_some_iff.1 walk
        exact ⟨_, List.mem_cons_self, taken⟩
    · have entered : enter? (s, place) segment = none := by
        rw [enter?, if_neg idle, if_neg up, if_neg admitted]
      rw [entered, if_neg admitted]
      exact .inr ⟨rfl, by simp⟩

/-! ### Following a way -/

/-- A way can be followed through directories that exist, and ends in one. -/
theorem foldlM_follow {segments : List String} {s : Store} {place : Place} {r : Route}
    (walk : walk? place segments = some r) (way : ∀ d ∈ r.directories, s.entry? d = some .directory)
    (above : ∀ q, q <+: place → s.entry? q = some .directory) :
    segments.foldlM s.follow? place = some r.target ∧
      ∀ q, q <+: r.target → s.entry? q = some .directory := by
  induction segments generalizing place r with
  | nil =>
    cases walk
    exact ⟨rfl, above⟩
  | cons segment rest ih =>
    have here : ¬ s.entry? place ≠ some .directory := not_not.2 (above place List.prefix_rfl)
    rw [walk?] at walk
    rw [List.foldlM_cons, follow?, if_neg here]
    split_ifs at walk with idle up admitted
    · rw [if_pos idle]
      exact ih walk way above
    · rw [if_neg idle, if_pos up]
      exact ih walk way fun q hq => above q (hq.trans (List.dropLast_prefix place))
    · rw [if_neg idle, if_neg up, if_pos admitted]
      obtain ⟨r, walk', rfl⟩ := Option.map_eq_some_iff.1 walk
      rw [List.forall_mem_cons] at way
      refine @ih (place ++ [segment]) r walk' way.2 fun q hq => ?_
      rcases List.prefix_concat_iff.1 hq with rfl | hq
      · exact way.1
      · exact above q hq

end Store

/-! ### Parent directories -/

namespace Path

/-- The segments that lead somewhere. -/
def leading (segments : List String) : List String := segments.filter (!isIdle ·)

theorem leading_dropWhile (segments : List String) :
    leading (segments.dropWhile isIdle) = leading segments := by
  induction segments with
  | nil => rfl
  | cons segment rest ih =>
    by_cases idle : isIdle segment = true
    · rw [List.dropWhile_cons_of_pos idle, ih, leading, leading,
        List.filter_cons_of_neg (by simpa using idle)]
    · rw [List.dropWhile_cons_of_neg idle]

theorem leading_trimEnd (segments : List String) :
    leading (trimEnd segments) = leading segments := by
  have reversed (l : List String) : leading l.reverse = (leading l).reverse := List.filter_reverse
  rw [trimEnd, reversed, leading_dropWhile, reversed, List.reverse_reverse]

theorem leading_ofAnchored (start : Option Component) (segments : List String) :
    leading (ofAnchored start segments).segments = leading segments := by
  unfold ofAnchored
  split <;> rfl

theorem trimEnd_concat {name : String} (h : ¬ isIdle name = true) (segments : List String) :
    trimEnd (segments ++ [name]) = segments ++ [name] := by
  simp [trimEnd, h]

theorem exists_anchored {p : Path} {way : List String} {name : String}
    (h : p.segments = way ++ [name]) (named : ¬ isIdle name = true) :
    ∃ start rest, p.anchored = (start, rest ++ [name]) ∧ leading rest = leading way := by
  unfold anchored
  rw [h]
  cases way with
  | nil =>
    split
    case h_1 eq => cases eq
    case h_2 eq =>
      obtain ⟨rfl, -⟩ := List.cons.inj eq
      exact absurd rfl named
    case h_3 => exact ⟨none, [], rfl, rfl⟩
  | cons segment way =>
    split
    case h_1 eq =>
      obtain ⟨rfl, rest⟩ := List.cons.inj eq
      exact ⟨some .root, way, congrArg (Prod.mk _) rest.symm, rfl⟩
    case h_2 eq =>
      obtain ⟨rfl, rfl⟩ := List.cons.inj eq
      exact ⟨some .here, way, rfl, rfl⟩
    case h_3 => exact ⟨none, segment :: way, rfl, rfl⟩

/-- The path of a file has a parent, which leads the same way. -/
theorem exists_parent {p : Path} {way : List String} {name : String}
    (h : p.segments = way ++ [name]) (named : ¬ isIdle name = true) :
    ∃ d, p.parent? = some d ∧ leading d.segments = leading way := by
  obtain ⟨start, rest, anchored, same⟩ := exists_anchored h named
  unfold parent?
  rw [anchored]
  dsimp only
  rw [trimEnd_concat named]
  split
  case h_1 none => exact absurd none (by simp)
  case h_2 none _ => exact absurd none (by simp)
  case h_3 =>
    refine ⟨_, rfl, ?_⟩
    rw [leading_ofAnchored, leading_trimEnd, List.dropLast_concat, same]

end Path

theorem Store.foldlM_leading (segments : List String) (spot : Store × Place) :
    (Path.leading segments).foldlM Store.enter? spot = segments.foldlM Store.enter? spot := by
  induction segments generalizing spot with
  | nil => rfl
  | cons segment rest ih =>
    by_cases idle : Path.isIdle segment = true
    · have entered : enter? spot segment = some spot := by simp [enter?, idle]
      rw [Path.leading, List.filter_cons_of_neg (by simpa using idle), List.foldlM_cons, entered]
      exact ih spot
    · rw [Path.leading, List.filter_cons_of_pos (by simpa using idle), List.foldlM_cons,
        List.foldlM_cons]
      exact congrArg _ (funext ih)

theorem Store.makeDirectories?_eq {d : Path} {way : List String}
    (same : Path.leading d.segments = Path.leading way) (s : Store) :
    s.makeDirectories? d = (way.foldlM Store.enter? (s, [])).map (·.1) := by
  rw [makeDirectories?, ← foldlM_leading, same, foldlM_leading]

/-! ### Writing a file -/

namespace Store

/-- The way of a route is free, and there is no directory where it ends. -/
structure Fits (s : Store) (r : Route) : Prop where
  way : ∀ d ∈ r.directories, s.Passable d
  target : s.entry? r.target ≠ some .directory
  apart : r.target ∉ r.directories

theorem locate?_concat {p : Path} {way : List String} {name : String}
    (h : p.segments = way ++ [name]) (s : Store) :
    s.locate? p = (way.foldlM s.follow? []).bind (s.follow? · name) := by
  rw [locate?, h, List.foldlM_append]
  cases way.foldlM s.follow? [] with
  | none => rfl
  | some place => simp

/-- What stays where it is ends in a directory, and not in a file. -/
theorem write?_of_idle {p : Path}
    (h : p.segments = [] ∨ ∃ way name, p.segments = way ++ [name] ∧ Path.isIdle name = true)
    (s : Store) (content : String) : s.write? p content = none := by
  rcases h with h | ⟨way, name, h, idle⟩
  · simp [write?, locate?, h, entry?]
  · rw [write?, locate?_concat h]
    cases way.foldlM s.follow? [] with
    | none => rfl
    | some place =>
      by_cases directory : s.entry? place = some .directory <;> simp [follow?, idle, directory]

/-- A file can be written below the directories on its way, where no directory is. -/
theorem write?_of_walk {p : Path} {way : List String} {name : String} {r : Route} {s : Store}
    (h : p.segments = way ++ [name]) (idle : ¬ Path.isIdle name = true)
    (walk : walk? [] way = some r) (made : ∀ d ∈ r.directories, s.entry? d = some .directory)
    (content : String) :
    s.write? p content =
      if name ≠ ".." ∧ admits name = true ∧ s.entry? (r.target ++ [name]) ≠ some .directory then
        some (s.put (r.target ++ [name]) (.text content))
      else none := by
  have top : ∀ q : Place, q <+: [] → s.entry? q = some .directory := by
    intro q hq
    rw [List.prefix_nil.1 hq]
    rfl
  obtain ⟨followed, above⟩ := foldlM_follow walk made top
  have here : ¬ s.entry? r.target ≠ some .directory := not_not.2 (above _ List.prefix_rfl)
  have upper := above _ (List.dropLast_prefix r.target)
  rw [write?, locate?_concat h, followed, Option.bind_some, follow?, if_neg here, if_neg idle]
  by_cases up : name = ".."
  · simp [up, upper]
  by_cases admitted : admits name = true
  · by_cases directory : s.entry? (r.target ++ [name]) = some .directory <;>
      simp [up, admitted, directory]
  · simp [up, admitted]

end Store

end Zephirize
