import Mathlib.Tactic
import Zephirize.Project.Run
import Zephirize.Proofs.Files.Routes

/-!
# Writing files

A file is written exactly when its route fits into the store (`saveFile_run`). Files are written one
after the other exactly when the store has room for all of them (`Store.HasRoom`), which can be said
without writing any: a directory on the way to one of them is never the place of another. Nothing
but the files and the directories on the way to them is different afterwards (`Saved`).
-/

namespace Zephirize

section Session

variable {α β : Type}

theorem Session.run_bind_ok {x : Session α} {f : α → Session β} {s t : Store} {a : α}
    (h : x.run.run s = (.ok a, t)) : (x >>= f).run.run s = (f a).run.run t := by
  have start : (x >>= f).run.run s = ExceptT.bindCont f (x.run.run s).1 (x.run.run s).2 := rfl
  rw [start, h]
  rfl

theorem Session.run_bind_error {x : Session α} {f : α → Session β} {s t : Store} {e : RunError}
    (h : x.run.run s = (.error e, t)) : (x >>= f).run.run s = (.error e, t) := by
  have start : (x >>= f).run.run s = ExceptT.bindCont f (x.run.run s).1 (x.run.run s).2 := rfl
  rw [start, h]
  rfl

theorem Session.run_get (s : Store) : (get : Session Store).run.run s = (.ok s, s) := rfl

theorem Session.run_set (s t : Store) : (set t : Session PUnit).run.run s = (.ok ⟨⟩, t) := rfl

end Session

/-! ### Writing a file -/

section SaveFile

variable {p d : Path} {content : String} {s t : Store}

theorem saveFile_cannotCreate (parent : p.parent? = some d) (made : s.makeDirectories? d = none) :
    (saveFile p content).run.run s = (.error (.cannotCreate d), s) := by
  unfold saveFile
  rw [parent]
  dsimp only
  rw [Session.run_bind_ok (Session.run_get s), made]
  rfl

theorem saveFile_made (parent : p.parent? = some d) (made : s.makeDirectories? d = some t) :
    (saveFile p content).run.run s =
      (t.write? p content).elim (.error (.cannotWrite p), t) fun u => (.ok (), u) := by
  unfold saveFile
  rw [parent]
  dsimp only
  rw [Session.run_bind_ok (Session.run_get s), made]
  dsimp only
  rw [Session.run_bind_ok (Session.run_set s t), Session.run_bind_ok (Session.run_get t)]
  cases t.write? p content with
  | none => rfl
  | some u => rfl

/-- A file that cannot be written whatever the store has. -/
theorem saveFile_error (written : ∀ t : Store, t.write? p content = none) :
    ∃ e t, (saveFile p content).run.run s = (.error e, t) := by
  cases parent : p.parent? with
  | none =>
    unfold saveFile
    rw [parent]
    dsimp only
    rw [Session.run_bind_ok (Session.run_get s), written]
    exact ⟨_, _, rfl⟩
  | some d =>
    cases made : s.makeDirectories? d with
    | none => exact ⟨_, _, saveFile_cannotCreate parent made⟩
    | some t => exact ⟨_, _, by rw [saveFile_made parent made, written, Option.elim_none]⟩

end SaveFile

/-- What is where after a file is written. -/
def SavedAt (r : Route) (content : String) (before after : Store) : Prop :=
  ∀ q, after.entry? q =
    if q = r.target then some (.text content)
    else if q ∈ r.directories then some .directory
    else before.entry? q

/-- A file is written exactly when its path has a route that fits into the store. -/
theorem saveFile_run (p : Path) (content : String) (s : Store) :
    (∃ r t, (saveFile p content).run.run s = (.ok (), t) ∧ p.route? = some r ∧ s.Fits r ∧
      SavedAt r content s t) ∨
    (∃ e t, (saveFile p content).run.run s = (.error e, t) ∧
      ∀ r, p.route? = some r → ¬ s.Fits r) := by
  rcases List.eq_nil_or_concat' p.segments with none | ⟨way, name, segments⟩
  · obtain ⟨e, t, run⟩ := saveFile_error (s := s) (Store.write?_of_idle (.inl none) · content)
    exact .inr ⟨e, t, run, by simp [Path.route?, none]⟩
  have route {r : Route} := Path.route?_eq_some_iff (r := r) segments
  by_cases idle : Path.isIdle name = true
  · obtain ⟨e, t, run⟩ :=
      saveFile_error (s := s) (Store.write?_of_idle (.inr ⟨way, name, segments, idle⟩) · content)
    exact .inr ⟨e, t, run, fun r h => absurd idle (route.1 h).1⟩
  obtain ⟨d, parent, same⟩ := Path.exists_parent segments idle
  have making := Store.makeDirectories?_eq same s
  rcases Store.foldlM_enter way s [] with ⟨r, t, walk, free, made, entries⟩ | ⟨made, blocked⟩
  · have ready : ∀ d ∈ r.directories, t.entry? d = some .directory := by
      intro d hd
      rw [entries, if_pos hd]
    have run := @saveFile_made p d content s t parent (by rw [making, made]; rfl)
    rw [Store.write?_of_walk segments idle walk ready] at run
    by_cases writable : name ≠ ".." ∧ Store.admits name = true ∧
        t.entry? (r.target ++ [name]) ≠ some .directory
    · rw [if_pos writable] at run
      have apart : r.target ++ [name] ∉ r.directories := fun mem => writable.2.2 (ready _ mem)
      refine .inl ⟨⟨r.directories, r.target ++ [name]⟩, _, run, ?_, ⟨free, ?_, apart⟩, fun q => ?_⟩
      · exact route.2 ⟨idle, writable.1, writable.2.1, r, walk, rfl⟩
      · have target := writable.2.2
        rwa [entries, if_neg apart] at target
      · rw [Store.entry?_put (by simp), entries]
    · rw [if_neg writable] at run
      refine .inr ⟨_, t, run, fun r' h fits => writable ?_⟩
      obtain ⟨-, up, admitted, w, walk', rfl⟩ := route.1 h
      obtain rfl : r = w := Option.some.inj (walk.symm.trans walk')
      refine ⟨up, admitted, ?_⟩
      rw [entries, if_neg fits.apart]
      exact fits.target
  · refine .inr ⟨_, s, saveFile_cannotCreate parent (by rw [making, made]; rfl), fun r h fits => ?_⟩
    obtain ⟨-, -, -, w, walk, rfl⟩ := route.1 h
    obtain ⟨d, hd, taken⟩ := blocked w walk
    exact taken (fits.way d hd)

/-! ### Writing files -/

/-- The store has room for files at the paths: their ways are free and stay free, and there is no
directory where they end. -/
def Store.HasRoom (s : Store) (paths : List Path) : Prop :=
  ∀ p ∈ paths, ∃ r, p.route? = some r ∧ s.entry? r.target ≠ some .directory ∧
    ∀ d ∈ r.directories, s.Passable d ∧
      ∀ q ∈ paths, ∀ r', q.route? = some r' → r'.target ≠ d

/-- What is where after files are written. -/
structure Saved (saves : List (Path × String)) (before after : Store) : Prop where
  /-- Nothing changes but the files and the directories on the way to them. -/
  kept : ∀ place, (∀ save ∈ saves, ∀ r, save.1.route? = some r →
    place ≠ r.target ∧ place ∉ r.directories) → after.entry? place = before.entry? place
  /-- The directories on the way are there; before there was nothing or a directory. -/
  made : ∀ save ∈ saves, ∀ r, save.1.route? = some r → ∀ d ∈ r.directories,
    before.Passable d ∧ after.entry? d = some .directory
  /-- A file has the text that is written to it last. -/
  written : ∀ earlier save later, saves = earlier ++ save :: later → ∀ r, save.1.route? = some r →
    (∀ other ∈ later, ∀ r', other.1.route? = some r' → r'.target ≠ r.target) →
    after.entry? r.target = some (.text save.2)

section Room

variable {s t u : Store} {p : Path} {paths : List Path} {content : String} {r : Route}

theorem Store.HasRoom.route (room : s.HasRoom paths) (mem : p ∈ paths) (route : p.route? = some r) :
    s.entry? r.target ≠ some .directory ∧ ∀ d ∈ r.directories, s.Passable d ∧
      ∀ q ∈ paths, ∀ r', q.route? = some r' → r'.target ≠ d := by
  obtain ⟨r', route', room⟩ := room p mem
  obtain rfl : r' = r := Option.some.inj (route'.symm.trans route)
  exact room

theorem Store.HasRoom.fits (room : s.HasRoom (p :: paths)) (route : p.route? = some r) :
    s.Fits r := by
  obtain ⟨target, way⟩ := room.route List.mem_cons_self route
  exact ⟨fun d hd => (way d hd).1, target,
    fun mem => (way _ mem).2 p List.mem_cons_self r route rfl⟩

theorem SavedAt.directory_iff (saved : SavedAt r content s t) (fits : s.Fits r) (q : Place) :
    t.entry? q = some .directory ↔ q ∈ r.directories ∨ s.entry? q = some .directory := by
  rw [saved]
  by_cases target : q = r.target
  · simp [target, fits.apart, fits.target]
  · by_cases way : q ∈ r.directories <;> simp [target, way]

theorem SavedAt.passable_iff (saved : SavedAt r content s t) (fits : s.Fits r) (q : Place) :
    t.Passable q ↔ q ≠ r.target ∧ s.Passable q := by
  have free := fits.way q
  unfold Store.Passable at free ⊢
  rw [saved]
  by_cases target : q = r.target
  · simp [target]
  · by_cases way : q ∈ r.directories
    · simpa [target, way] using free way
    · simp [target, way]

/-- Room for files is room for one of them, and for the others after that one is written. -/
theorem Store.hasRoom_cons (route : p.route? = some r) (fits : s.Fits r)
    (saved : SavedAt r content s t) : s.HasRoom (p :: paths) ↔ t.HasRoom paths := by
  have directory := saved.directory_iff fits
  have passable := saved.passable_iff fits
  constructor
  · intro room q hq
    obtain ⟨r', route', target, way⟩ := room q (List.mem_cons_of_mem p hq)
    refine ⟨r', route', fun here => ?_, fun d hd => ⟨?_, fun q' hq' => ?_⟩⟩
    · rcases (directory _).1 here with mem | here
      · have apart := ((room.route List.mem_cons_self route).2 _ mem).2
        exact apart q (List.mem_cons_of_mem p hq) r' route' rfl
      · exact target here
    · exact (passable d).2 ⟨((way d hd).2 p List.mem_cons_self r route).symm, (way d hd).1⟩
    · exact (way d hd).2 q' (List.mem_cons_of_mem p hq')
  · intro room
    refine List.forall_mem_cons.2 ⟨⟨r, route, fits.target, fun d hd => ⟨fits.way d hd, ?_⟩⟩, ?_⟩
    · rw [List.forall_mem_cons]
      refine ⟨fun r' route' => ?_, fun q hq r' route' same => ?_⟩
      · obtain rfl : r' = r := Option.some.inj (route'.symm.trans route)
        exact fun same => fits.apart (same ▸ hd)
      · exact (room.route hq route').1 ((directory _).2 (.inl (same ▸ hd)))
    · intro q hq
      obtain ⟨r', route', target, way⟩ := room q hq
      refine ⟨r', route', fun here => target ((directory _).2 (.inr here)), fun d hd => ?_⟩
      obtain ⟨apart, free⟩ := (passable d).1 (way d hd).1
      refine ⟨free, List.forall_mem_cons.2 ⟨fun r₀ route₀ => ?_, (way d hd).2⟩⟩
      obtain rfl : r₀ = r := Option.some.inj (route₀.symm.trans route)
      exact apart.symm

theorem Saved.cons {saves : List (Path × String)} (route : p.route? = some r) (fits : s.Fits r)
    (saved : SavedAt r content s t) (room : t.HasRoom (saves.map Prod.fst))
    (rest : Saved saves t u) :
    Saved ((p, content) :: saves) s u where
  kept place untouched := by
    rw [List.forall_mem_cons] at untouched
    obtain ⟨target, way⟩ := untouched.1 r route
    rw [rest.kept place untouched.2, saved, if_neg target, if_neg way]
  made := by
    rw [List.forall_mem_cons]
    refine ⟨fun r' route' d hd => ?_, fun save mem r' route' d hd => ?_⟩
    · obtain rfl : r' = r := Option.some.inj (route'.symm.trans route)
      have here : t.entry? d = some .directory := (saved.directory_iff fits d).2 (.inl hd)
      refine ⟨fits.way d hd, ?_⟩
      -- The directory may be on the way to a later file too, but no later file is in its place.
      by_cases later : ∃ save ∈ saves, ∃ r', save.1.route? = some r' ∧ d ∈ r'.directories
      · obtain ⟨save, mem, r', route', hd⟩ := later
        exact (rest.made save mem r' route' d hd).2
      · rw [rest.kept d fun save mem r' route' => ⟨?_, fun hd => later ⟨save, mem, r', route', hd⟩⟩,
          here]
        rintro rfl
        exact (room.route (List.mem_map_of_mem mem) route').1 here
    · obtain ⟨free, here⟩ := rest.made save mem r' route' d hd
      exact ⟨((saved.passable_iff fits d).1 free).2, here⟩
  written earlier save later split r' route' last := by
    cases earlier with
    | nil =>
      obtain ⟨rfl, rfl⟩ := List.cons.inj split
      obtain rfl : r' = r := Option.some.inj (route'.symm.trans route)
      rw [rest.kept r'.target fun other mem r'' route'' => ⟨(last other mem r'' route'').symm, ?_⟩,
        saved, if_pos rfl]
      intro way
      have free := ((room.route (List.mem_map_of_mem mem) route'').2 _ way).1
      exact ((saved.passable_iff fits _).1 free).1 rfl
    | cons first earlier =>
      obtain ⟨-, rfl⟩ := List.cons.inj split
      exact rest.written earlier save later rfl r' route' last

end Room

/-- Files are written one after the other exactly when the store has room for them. -/
theorem saveAll_run (saves : List (Path × String)) (s : Store) :
    (∃ t, (saves.forM fun save => saveFile save.1 save.2).run.run s = (.ok (), t) ∧
      s.HasRoom (saves.map Prod.fst) ∧ Saved saves s t) ∨
    (∃ e t, (saves.forM fun save => saveFile save.1 save.2).run.run s = (.error e, t) ∧
      ¬ s.HasRoom (saves.map Prod.fst)) := by
  induction saves generalizing s with
  | nil => exact .inl ⟨s, rfl, by simp [Store.HasRoom], by simp, by simp, by simp⟩
  | cons save rest ih =>
    obtain ⟨p, content⟩ := save
    rw [List.forM, List.map_cons]
    rcases saveFile_run p content s with ⟨r, t, run, route, fits, saved⟩ | ⟨e, t, run, blocked⟩
    · rw [Session.run_bind_ok run, Store.hasRoom_cons route fits saved]
      rcases ih t with ⟨u, more, room, result⟩ | ⟨e, u, more, full⟩
      · exact .inl ⟨u, more, room, .cons route fits saved room result⟩
      · exact .inr ⟨e, u, more, full⟩
    · refine .inr ⟨e, t, Session.run_bind_error run, fun room => ?_⟩
      obtain ⟨r, route, -⟩ := room p List.mem_cons_self
      exact blocked r route (room.fits route)

end Zephirize
