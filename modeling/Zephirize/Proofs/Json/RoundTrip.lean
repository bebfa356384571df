import Zephirize.Proofs.Json.Tokens

/-!
# Reading undoes writing

The text of a value is read back in two passes, and each has its own theorem: the lexer finds the
tokens of the value (`lexes_compact`), and the reader builds the value from them
(`foldlM_tokens`).

* `ReadsBack x` — the text of the double `x` is a literal that stands for `x`.
* `Lossless v` — every part of `v` has a text of its own: no part is unreadable, the integers fit
  64 bits and the doubles read back.
* `tokens v` — the tokens of the text of `v`.
* `read?_compact` — a lossless value that does not nest too deep is read back from its text.
-/

namespace Zephirize.Json

/-- The text of a double is a literal for this double. -/
def ReadsBack (x : Float) : Prop :=
  (Literal.ofChars? (numberText (.float x)).toList).map Literal.value = some (.num (.float x))

/-- No part of the value is lost in its text. -/
inductive Lossless : Json → Prop where
  | null : Lossless .null
  | bool (b : Bool) : Lossless (.bool b)
  | int {i : Int} (least : -Nat.pow 2 63 ≤ i) (greatest : i < Nat.pow 2 64) :
      Lossless (.num (.int i))
  | float {x : Float} (h : ReadsBack x) : Lossless (.num (.float x))
  | str (s : String) : Lossless (.str s)
  | arr {items : List Json} (h : ∀ v ∈ items, Lossless v) : Lossless (.arr items)
  | obj {fields : List (String × Json)} (h : ∀ field ∈ fields, Lossless field.2) :
      Lossless (.obj fields)

mutual

/-- The tokens of the text of a value. -/
def tokens : Json → List Token
  | .str s => [.text (some s)]
  | .arr items => .openList :: ([.comma].intercalate (itemTokens items) ++ [.closeList])
  | .obj fields => .openObject :: ([.comma].intercalate (fieldTokens fields) ++ [.closeObject])
  | v => [.leaf v]

/-- The tokens of each item. -/
def itemTokens : List Json → List (List Token)
  | [] => []
  | v :: rest => tokens v :: itemTokens rest

/-- The tokens of each field. -/
def fieldTokens : List (String × Json) → List (List Token)
  | [] => []
  | (name, v) :: rest => (.text (some name) :: .colon :: tokens v) :: fieldTokens rest

end

/-! ### Tokens of the text -/

/-- A function that goes through a list item by item is a map. -/
theorem eq_map_of_cons {α β : Type} {f : List α → List β} {g : α → β} (nil : f [] = [])
    (cons : ∀ a rest, f (a :: rest) = g a :: f rest) (items : List α) : f items = items.map g := by
  induction items with
  | nil => exact nil
  | cons a rest ih => rw [cons, ih, List.map_cons]

theorem compactItems_eq_map (items : List Json) : compactItems items = items.map compact :=
  eq_map_of_cons rfl (fun _ _ => rfl) items

theorem compactFields_eq_map (fields : List (String × Json)) :
    compactFields fields = fields.map fun field => quoted field.1 ++ ":" ++ compact field.2 :=
  eq_map_of_cons rfl (fun _ _ => rfl) fields

theorem itemTokens_eq_map (items : List Json) : itemTokens items = items.map tokens :=
  eq_map_of_cons rfl (fun _ _ => rfl) items

theorem fieldTokens_eq_map (fields : List (String × Json)) :
    fieldTokens fields =
      fields.map fun field => .text (some field.1) :: .colon :: tokens field.2 :=
  eq_map_of_cons rfl (fun _ _ => rfl) fields

/-- Texts joined by commas hold the tokens of each with commas between them. -/
theorem lexes_commas {α : Type} (text : α → String) (tokens : α → List Token) (entries : List α)
    (h : ∀ a ∈ entries, Lexes (text a).toList (tokens a)) :
    Lexes (",".intercalate (entries.map text)).toList
      ([.comma].intercalate (entries.map tokens)) := by
  induction entries with
  | nil => exact .nil
  | cons a rest ih =>
    have first := h a List.mem_cons_self
    have others := ih fun b mem => h b (List.mem_cons_of_mem a mem)
    cases rest with
    | nil =>
      simp only [List.map_cons, List.map_nil, String.intercalate_singleton,
        List.intercalate_singleton]
      exact first
    | cons b rest =>
      simp only [List.map_cons, String.intercalate_cons_cons, List.intercalate_cons_cons,
        String.toList_append, List.append_assoc] at others ⊢
      exact first.mark rfl others

/-- The lexer finds the tokens of a value in its text. -/
theorem lexes_compact {v : Json} (h : Lossless v) : Lexes v.compact.toList v.tokens := by
  induction h with
  | null => exact fun found => ⟨⟨.word ['l', 'l', 'u', 'n'], found⟩, rfl, rfl⟩
  | bool b =>
    cases b with
    | false => exact fun found => ⟨⟨.word ['e', 's', 'l', 'a', 'f'], found⟩, rfl, rfl⟩
    | true => exact fun found => ⟨⟨.word ['e', 'u', 'r', 't'], found⟩, rfl, rfl⟩
  | int least greatest =>
    rw [compact, tokens]
    · exact lexes_int least greatest
    all_goals simp
  | @float x h =>
    obtain ⟨l, literal, value⟩ := Option.map_eq_some_iff.1 h
    rw [compact, tokens, ← value]
    · exact lexes_literal literal
    all_goals simp
  | str s => exact lexes_quoted s
  | @arr items _ ih =>
    rw [compact, tokens, compactItems_eq_map, itemTokens_eq_map, String.toList_append,
      String.toList_append]
    exact Lexes.between rfl (lexes_commas compact tokens items ih) rfl
  | @obj fields _ ih =>
    rw [compact, tokens, compactFields_eq_map, fieldTokens_eq_map, String.toList_append,
      String.toList_append]
    refine Lexes.between rfl (lexes_commas _ _ fields fun field mem => ?_) rfl
    rw [String.toList_append, String.toList_append, List.append_assoc]
    exact (lexes_quoted field.1).mark rfl (ih field mem)

/-! ### The value of the tokens -/

theorem depthItems_le_iff {items : List Json} {n : Nat} :
    depthItems items ≤ n ↔ ∀ v ∈ items, v.depth ≤ n := by
  induction items with
  | nil => simp [depthItems]
  | cons v rest ih => simp [depthItems, ih]

theorem depthFields_le_iff {fields : List (String × Json)} {n : Nat} :
    depthFields fields ≤ n ↔ ∀ field ∈ fields, field.2.depth ≤ n := by
  induction fields with
  | nil => simp [depthFields]
  | cons field rest ih => simp [depthFields, ih]

section

variable {limit : Nat} {stack : List Frame}

/-- Entries with commas between them go one by one into the frame on top of the stack. The reader
is `ready` for an entry at the opening of the frame and after each comma. -/
theorem foldlM_commas {α : Type} {entryTokens : α → List Token} {frame : List α → Frame}
    {ready : Expected → Prop} {again : Expected} (entries : List α)
    (entry : ∀ a ∈ entries, ∀ held expected, ready expected →
      (entryTokens a).foldlM (Reader.step limit) ⟨frame held :: stack, expected⟩ =
        some ⟨frame (a :: held) :: stack, .more⟩)
    (comma : ∀ held, Reader.step limit ⟨frame held :: stack, .more⟩ .comma =
      some ⟨frame held :: stack, again⟩)
    (held : List α) {expected : Expected} (first : ready expected) (later : ready again) :
    ([.comma].intercalate (entries.map entryTokens)).foldlM (Reader.step limit)
      ⟨frame held :: stack, expected⟩ =
      some ⟨frame (entries.reverse ++ held) :: stack,
        if entries.isEmpty then expected else .more⟩ := by
  induction entries generalizing held expected with
  | nil => rfl
  | cons a rest ih =>
    have run := entry a List.mem_cons_self held expected first
    cases rest with
    | nil => simpa using run
    | cons b rest =>
      have others := ih (fun c mem => entry c (List.mem_cons_of_mem a mem)) (a :: held) later
      rw [List.map_cons] at others
      rw [List.map_cons, List.map_cons, List.intercalate_cons_cons, List.append_assoc,
        List.foldlM_append, run, Option.bind_eq_bind, Option.bind_some, List.singleton_append,
        List.foldlM_cons, comma, Option.bind_eq_bind, Option.bind_some, others]
      simp

/-- An open array with its items is closed to the array. -/
theorem step_closeList (items : List Json) (room : stack.length + 1 ≤ limit) :
    Reader.step limit ⟨.list (items.reverse ++ []) :: stack,
      if items.isEmpty then .valueOrClose else .more⟩ .closeList =
      Reader.put stack (.arr items) := by
  have closed : Reader.closeList limit (.list items.reverse :: stack) =
      Reader.put stack (.arr items) := by
    rw [Reader.closeList, if_neg (by simpa using room), List.reverse_reverse]
  rw [List.append_nil, ← closed]
  cases items <;> rfl

/-- A field as an open object holds it. -/
def heldField (field : String × Json) : Option String × Json := (some field.1, field.2)

theorem ofFields_heldField (fields : List (String × Json)) :
    ofFields (fields.map heldField) = .obj fields := by
  have names : (fields.map heldField).mapM (fun field => field.1.map (·, field.2)) =
      some fields := by
    induction fields with
    | nil => rfl
    | cons field rest ih => simp [heldField, ih]
  rw [ofFields, names]

/-- An open object with its fields is closed to the object. -/
theorem step_closeObject (fields : List (String × Json)) (room : stack.length + 1 ≤ limit) :
    Reader.step limit ⟨.object ((fields.reverse ++ []).map heldField) :: stack,
      if fields.isEmpty then .nameOrClose else .more⟩ .closeObject =
      Reader.put stack (.obj fields) := by
  have closed : Reader.closeObject limit (.object (fields.reverse.map heldField) :: stack) =
      Reader.put stack (.obj fields) := by
    rw [Reader.closeObject, if_neg (by simpa using room), List.map_reverse, List.reverse_reverse,
      ofFields_heldField]
  rw [List.append_nil, ← closed]
  cases fields <;> rfl

end

/-- A value may come next. -/
def Expected.IsValue (expected : Expected) : Prop := expected = .value ∨ expected = .valueOrClose

/-- A field may come next. -/
def Expected.IsName (expected : Expected) : Prop := expected = .name ∨ expected = .nameOrClose

/-- Where a value may come next, the tokens of a value are taken for the value. -/
theorem foldlM_tokens {limit : Nat} {v : Json} (h : Lossless v) {stack : List Frame}
    {expected : Expected} (next : expected.IsValue) (room : stack.length + v.depth ≤ limit) :
    v.tokens.foldlM (Reader.step limit) ⟨stack, expected⟩ = Reader.put stack v := by
  induction h generalizing stack expected with
  | null | bool | int | float | str =>
    simp only [tokens, List.foldlM_cons, List.foldlM_nil, bind_pure]
    rcases next with rfl | rfl <;> rfl
  | @arr items _ ih =>
    have inside : ∀ v ∈ items, v.depth ≤ depthItems items := depthItems_le_iff.1 le_rfl
    rw [depth] at room
    have opening : stack.length + 1 ≤ limit := by omega
    have opened : Reader.step limit ⟨stack, expected⟩ .openList =
        some ⟨.list [] :: stack, .valueOrClose⟩ := by
      rcases next with rfl | rfl <;> rfl
    have item : ∀ v ∈ items, ∀ held expected, expected.IsValue →
        v.tokens.foldlM (Reader.step limit) ⟨.list held :: stack, expected⟩ =
          some ⟨.list (v :: held) :: stack, .more⟩ := by
      intro v mem held expected next
      have := inside v mem
      exact ih v mem next (by rw [List.length_cons]; omega)
    have filled := foldlM_commas items item (fun _ => rfl) [] (.inr rfl) (.inl rfl)
    rw [tokens, itemTokens_eq_map, List.foldlM_cons, opened, Option.bind_eq_bind, Option.bind_some,
      List.foldlM_append, filled, Option.bind_eq_bind, Option.bind_some, List.foldlM_cons,
      step_closeList items opening]
    exact bind_pure _
  | @obj fields _ ih =>
    have inside : ∀ field ∈ fields, field.2.depth ≤ depthFields fields :=
      depthFields_le_iff.1 le_rfl
    rw [depth] at room
    have opening : stack.length + 1 ≤ limit := by omega
    have opened : Reader.step limit ⟨stack, expected⟩ .openObject =
        some ⟨.object ([].map heldField) :: stack, .nameOrClose⟩ := by
      rcases next with rfl | rfl <;> rfl
    have field : ∀ field ∈ fields, ∀ held expected, expected.IsName →
        (.text (some field.1) :: .colon :: field.2.tokens).foldlM (Reader.step limit)
          ⟨.object (held.map heldField) :: stack, expected⟩ =
          some ⟨.object ((field :: held).map heldField) :: stack, .more⟩ := by
      intro field mem held expected next
      have := inside field mem
      have named : Reader.step limit ⟨.object (held.map heldField) :: stack, expected⟩
          (.text (some field.1)) =
          some ⟨.member (held.map heldField) (some field.1) :: stack, .colon⟩ := by
        rcases next with rfl | rfl <;> rfl
      rw [List.foldlM_cons, named]
      exact ih field mem (.inl rfl) (by rw [List.length_cons]; omega)
    have filled := foldlM_commas fields field (fun _ => rfl) [] (.inr rfl) (.inl rfl)
    rw [tokens, fieldTokens_eq_map, List.foldlM_cons, opened, Option.bind_eq_bind, Option.bind_some,
      List.foldlM_append, filled, Option.bind_eq_bind, Option.bind_some, List.foldlM_cons,
      step_closeObject fields opening]
    exact bind_pure _

/-- A value is read back from its text, unless it nests too deep. -/
theorem read?_compact {limit : Nat} {v : Json} (h : Lossless v) (room : v.depth ≤ limit) :
    read? limit v.compact = some v := by
  have value : v.tokens.foldlM (Reader.step limit) {} = some ⟨[], .nothing v⟩ :=
    foldlM_tokens h (.inl rfl) (by simpa using room)
  rw [read?, tokens?_of_lexes (lexes_compact h), Option.bind_eq_bind, Option.bind_some, ofTokens?,
    value]
  rfl

theorem readableItems_iff {items : List Json} :
    readableItems items = true ↔ ∀ v ∈ items, v.readable = true := by
  induction items with
  | nil => simp [readableItems]
  | cons v rest ih => simp [readableItems, ih]

theorem readableFields_iff {fields : List (String × Json)} :
    readableFields fields = true ↔ ∀ field ∈ fields, field.2.readable = true := by
  induction fields with
  | nil => simp [readableFields]
  | cons field rest ih => simp [readableFields, ih]

theorem Lossless.readable {v : Json} (h : Lossless v) : v.readable = true := by
  induction h with
  | null | bool | int | float | str => rfl
  | arr _ ih => exact readableItems_iff.2 ih
  | obj _ ih => exact readableFields_iff.2 ih

end Zephirize.Json
