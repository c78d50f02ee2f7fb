import Mathlib.Data.List.Forall2
import ScriptMachine.Proofs.Host.Texts

/-!
Texts of plain data. The first character of such a text tells the type, and the text shows where it
ends: a string at a quote without a backslash, a container at its bracket, a number or a word where
no further character of one comes. So data can be taken off the front of a text in one way only, and
two texts that are equal show the same tree, whatever the strings in it contain.
-/

namespace ScriptMachine

/-! ## Taking texts off -/

/-- The characters of numbers and of words like `null`. Brackets, quotes, marks and separators are
none of them. -/
def isWordChar (c : Char) : Bool :=
  c.isDigit || c.isLower || c == '.' || c == '-'

/-- The text does not go on with a number or a word. -/
def Stops (s : List Char) : Prop :=
  ∀ c ∈ s.head?, isWordChar c = false

theorem stops_nil : Stops [] := nofun

/-- A word ends where another kind of character begins. -/
theorem stops_cons {c : Char} {s : List Char} (other : isWordChar c = false) : Stops (c :: s) := by
  rintro _ ⟨⟩
  exact other

/-- If the two texts begin one text then the statement holds, and what follows them is the same.
Only numbers and words need to know that none of their characters follows. -/
def Decides (x y : List Char) (P : Prop) : Prop :=
  ∀ s t, Stops s → Stops t → x ++ s = y ++ t → P ∧ s = t

namespace Decides

variable {x y x' y' : List Char} {P Q : Prop}

/-- What one text tells may be told in weaker words. -/
theorem imp (decides : Decides x y P) (implies : P → Q) : Decides x y Q :=
  fun s t ends ends' same => (decides s t ends ends' same).imp_left implies

/-- Where the same follows, the texts tell what they stand for. -/
theorem told (decides : Decides x y P) (same : x = y) : P :=
  (decides [] [] stops_nil stops_nil (by rw [same])).1

theorem refl (x : List Char) (holds : P) : Decides x x P := fun _ _ _ _ same =>
  ⟨holds, List.append_cancel_left same⟩

/-- Texts with different first characters do not begin one text. -/
theorem of_ne {c d : Char} (differ : c ≠ d) : Decides (c :: x) (d :: y) P := fun _ _ _ _ same =>
  absurd (List.cons.inj same).1 differ

/-- Reading goes on behind equal characters. Different ones tell the texts apart. -/
theorem cons {c d : Char} (decides : Decides x y P) : Decides (c :: x) (d :: y) P :=
  fun s t ends ends' same => decides s t ends ends' (List.cons.inj same).2

/-- Of what may follow nothing belongs to a word, so words come off as wholes. -/
theorem of_words (word : ∀ c ∈ x, isWordChar c = true) (word' : ∀ c ∈ y, isWordChar c = true)
    (told : x = y → P) : Decides x y P := by
  have taken {x s : List Char} (word : ∀ c ∈ x, isWordChar c = true) (ends : Stops s) :
      (x ++ s).takeWhile isWordChar = x := by
    rw [List.takeWhile_append_of_pos word]
    cases s with
    | nil => simp
    | cons c s => simp [ends c rfl]
  intro s t ends ends' same
  have words := congrArg (List.takeWhile isWordChar) same
  rw [taken word ends, taken word' ends'] at words
  subst words
  exact ⟨told rfl, List.append_cancel_left same⟩

/-- One text is taken off after the other, if the later one is no number. -/
theorem append (first : Decides x y P) (stops : ∀ s, Stops (x' ++ s))
    (stops' : ∀ t, Stops (y' ++ t)) (second : Decides x' y' Q) :
    Decides (x ++ x') (y ++ y') (P ∧ Q) := by
  intro s t ends ends' same
  rw [List.append_assoc, List.append_assoc] at same
  obtain ⟨holds, same⟩ := first _ _ (stops s) (stops' t) same
  obtain ⟨holds', same⟩ := second s t ends ends' same
  exact ⟨⟨holds, holds'⟩, same⟩

end Decides

/-! ## Words -/

namespace Word

theorem isWordChar_of_digit {n : Nat} : ∀ c ∈ Nat.toDigits 10 n, isWordChar c = true := by
  intro c member
  rw [isWordChar, Nat.isDigit_of_mem_toDigits (by decide) (by decide) member]
  rfl

/-- Digits tell the number, as long as no digit follows. -/
theorem decides_digits (m n : Nat) : Decides (Nat.toDigits 10 m) (Nat.toDigits 10 n) (m = n) := by
  refine .of_words isWordChar_of_digit isWordChar_of_digit fun same => ?_
  have numbers := congrArg (Nat.ofDigitChars 10 · 0) same
  simpa only [Nat.ofDigitChars_ten_toDigits] using numbers

theorem digits_begin (n : Nat) : ∃ c s, Nat.toDigits 10 n = c :: s ∧ c.isDigit = true := by
  obtain ⟨c, s, digits⟩ := List.exists_cons_of_ne_nil (Nat.toDigits_ne_nil (n := n) (b := 10))
  refine ⟨c, s, digits, ?_⟩
  exact Nat.isDigit_of_mem_toDigits (by decide) (by decide) (digits ▸ List.mem_cons_self)

/-- The text of a number begins with a sign or a digit. -/
theorem text_begins (w : Int64) :
    ∃ c s, (text w).toList = c :: s ∧ (c = '-' ∨ c.isDigit = true) := by
  unfold text
  cases w.toInt with
  | ofNat n =>
      obtain ⟨c, s, digits, digit⟩ := digits_begin n
      exact ⟨c, s, String.toList_ofList.trans digits, .inr digit⟩
  | negSucc n => exact ⟨_, _, String.toList_ofList, .inl rfl⟩

theorem mem_text {w : Int64} {c : Char} (member : c ∈ (text w).toList) :
    c = '-' ∨ c.isDigit = true := by
  have digit {n : Nat} (member : c ∈ Nat.toDigits 10 n) : c.isDigit = true :=
    Nat.isDigit_of_mem_toDigits (by decide) (by decide) member
  unfold text at member
  cases number : w.toInt <;> rw [number, String.toList_ofList] at member
  · exact .inr (digit member)
  · exact (List.mem_cons.1 member).imp_right digit

/-- The text of a number tells the number. -/
theorem decides_text (v w : Int64) : Decides (text v).toList (text w).toList (v = w) := by
  have minus (n : Nat) : ∃ c s, Nat.toDigits 10 n = c :: s ∧ c ≠ '-' := by
    obtain ⟨c, s, digits, digit⟩ := digits_begin n
    refine ⟨c, s, digits, ?_⟩
    rintro rfl
    cases digit
  rw [← Int64.toInt_inj]
  unfold text
  cases v.toInt <;> cases w.toInt <;> rw [String.toList_ofList, String.toList_ofList]
  case ofNat.ofNat m n => exact (decides_digits m n).imp (congrArg Int.ofNat)
  case ofNat.negSucc m n =>
    obtain ⟨c, s, digits, differs⟩ := minus m
    rw [digits]
    exact .of_ne differs
  case negSucc.ofNat m n =>
    obtain ⟨c, s, digits, differs⟩ := minus n
    rw [digits]
    exact .of_ne differs.symm
  case negSucc.negSucc m n =>
    exact (decides_digits (m + 1) (n + 1)).cons.imp fun same => congrArg Int.negSucc (by omega)

end Word

/-! ## Truth values and strings -/

namespace Text

theorem toList_null : "null".toList = 'n' :: ['u', 'l', 'l'] := by decide

theorem toList_true : "true".toList = 't' :: ['r', 'u', 'e'] := by decide

theorem toList_false : "false".toList = 'f' :: ['a', 'l', 's', 'e'] := by decide

/-- The two truth values have different texts. -/
theorem decides_truth (b c : Bool) : Decides (if b then "true" else "false").toList
    (if c then "true" else "false").toList (b = c) := by
  cases b <;> cases c
  case false.false | true.true => exact .refl _ rfl
  all_goals
    simp only [Bool.false_eq_true, if_true, if_false, toList_true, toList_false]
    exact .of_ne (by decide)

/-- A character that is escaped begins with a backslash, and one that is not is no backslash. -/
theorem escape_inj {c d : Char} {s t : List Char} (same : escape c ++ s = escape d ++ t) :
    c = d ∧ s = t := by
  unfold escape at same
  split at same <;> split at same <;> grind

/-- A quotation mark in a text is escaped, so it does not end the text. -/
theorem escape_ne_quote (c : Char) (s t : List Char) : escape c ++ s ≠ '"' :: t := by
  unfold escape
  split <;> simp_all

/-- A quoted text ends at the first mark that is not escaped, and can be read back up to there. -/
theorem flatMap_escape_inj {cs ds s t : List Char}
    (same : cs.flatMap escape ++ '"' :: s = ds.flatMap escape ++ '"' :: t) : cs = ds ∧ s = t := by
  induction cs generalizing ds with
  | nil =>
      cases ds with
      | nil => exact ⟨rfl, (List.cons.inj same).2⟩
      | cons d ds =>
          rw [List.flatMap_cons, List.append_assoc] at same
          exact absurd same.symm (escape_ne_quote d _ _)
  | cons c cs ih =>
      rw [List.flatMap_cons, List.append_assoc] at same
      cases ds with
      | nil => exact absurd same (escape_ne_quote c _ _)
      | cons d ds =>
          rw [List.flatMap_cons, List.append_assoc] at same
          obtain ⟨rfl, others⟩ := escape_inj same
          obtain ⟨rfl, rest⟩ := ih others
          exact ⟨rfl, rest⟩

/-- A quoted text tells the text. -/
theorem decides_quoted (a b : String) : Decides (quoted a).toList (quoted b).toList (a = b) := by
  intro s t _ _ same
  simp only [quoted, String.toList_ofList, List.cons_append, List.append_assoc, List.cons.injEq,
    true_and, List.nil_append] at same
  obtain ⟨characters, rest⟩ := flatMap_escape_inj same
  exact ⟨String.toList_inj.1 characters, rest⟩

end Text

/-! ## Sequences -/

section

variable {α β : Type} {f : α → List Char} {g : β → List Char} {R : α → β → Prop} {xs : List α}
  {ys : List β} {close : Char}

/-- What follows the first part of a sequence: each further part behind a separator, and the
bracket. -/
def trailing (f : α → List Char) (close : Char) (xs : List α) : List Char :=
  xs.flatMap (fun x => ',' :: ' ' :: f x) ++ [close]

theorem trailing_cons (x : α) (xs : List α) :
    trailing f close (x :: xs) = ',' :: ' ' :: (f x ++ trailing f close xs) := by
  simp [trailing]

/-- Behind an item there is a comma or the closing bracket, which belongs to no word. -/
theorem stops_trailing (other : isWordChar close = false) (xs : List α) (s : List Char) :
    Stops (trailing f close xs ++ s) := by
  cases xs with
  | nil => exact stops_cons other
  | cons x xs => exact stops_cons rfl

/-- A bracket is no separator, so it shows that no part is left. -/
theorem decides_trailing (other : isWordChar close = false) (mark : close ≠ ',')
    (parts : ∀ x ∈ xs, ∀ y ∈ ys, Decides (f x) (g y) (R x y)) :
    Decides (trailing f close xs) (trailing g close ys) (List.Forall₂ R xs ys) := by
  induction xs generalizing ys with
  | nil =>
      cases ys with
      | nil => exact .refl _ .nil
      | cons y ys => exact .of_ne mark
  | cons x xs ih =>
      cases ys with
      | nil => exact .of_ne mark.symm
      | cons y ys =>
          have later : ∀ x ∈ xs, ∀ y ∈ ys, Decides (f x) (g y) (R x y) := fun x member y member' =>
            parts x (List.mem_cons_of_mem _ member) y (List.mem_cons_of_mem _ member')
          have both := (parts x List.mem_cons_self y List.mem_cons_self).append
            (stops_trailing other xs) (stops_trailing other ys) (ih later)
          rw [trailing_cons, trailing_cons]
          exact both.cons.cons.imp fun ⟨first, others⟩ => .cons first others

/-- What follows the first item of a tuple. If there is no further one, a separator does. -/
def trailingItems (f : α → List Char) : List α → List Char
  | [] => [',', ')']
  | xs => trailing f ')' xs

theorem stops_trailingItems (xs : List α) (s : List Char) : Stops (trailingItems f xs ++ s) := by
  cases xs with
  | nil => exact stops_cons rfl
  | cons x xs => exact stops_trailing rfl (x :: xs) s

/-- The items of a tuple are told one by one, and so is their number. -/
theorem decides_trailingItems (parts : ∀ x ∈ xs, ∀ y ∈ ys, Decides (f x) (g y) (R x y)) :
    Decides (trailingItems f xs) (trailingItems g ys) (List.Forall₂ R xs ys) := by
  cases xs with
  | nil =>
      cases ys with
      | nil => exact .refl _ .nil
      | cons y ys => exact (Decides.of_ne (by decide)).cons
  | cons x xs =>
      cases ys with
      | nil => exact (Decides.of_ne (by decide)).cons
      | cons y ys => exact decides_trailing rfl (by decide) parts

/-- A sequence behind its opening bracket: the first part with what follows it, or the closing
bracket. -/
def opened (f : α → List Char) (follows : List α → List Char) (close : Char) : List α → List Char
  | [] => [close]
  | x :: xs => f x ++ follows xs

/-- The text begins, and not with what may come behind an opening bracket or a part. -/
def Opens (x : List Char) : Prop :=
  ∃ c s, x = c :: s ∧ c ∉ [',', ')', ']', '\x7d']

/-- The first characters tell the kind, whatever follows. -/
theorem Opens.append {x : List Char} (opens : Opens x) (y : List Char) : Opens (x ++ y) := by
  obtain ⟨c, s, rfl, other⟩ := opens
  exact ⟨c, s ++ y, rfl, other⟩

/-- A sequence is told by its text if its parts are and what follows the first one is. -/
theorem decides_opened {follows : List α → List Char} {follows' : List β → List Char}
    (bracket : close ∈ [')', ']', '\x7d'])
    (opens : ∀ x ∈ xs, Opens (f x)) (opens' : ∀ y ∈ ys, Opens (g y))
    (stops : ∀ xs s, Stops (follows xs ++ s)) (stops' : ∀ ys s, Stops (follows' ys ++ s))
    (parts : ∀ x ∈ xs, ∀ y ∈ ys, Decides (f x) (g y) (R x y))
    (rest : ∀ {xs ys}, (∀ x ∈ xs, ∀ y ∈ ys, Decides (f x) (g y) (R x y)) →
      Decides (follows xs) (follows' ys) (List.Forall₂ R xs ys)) :
    Decides (opened f follows close xs) (opened g follows' close ys) (List.Forall₂ R xs ys) := by
  cases xs with
  | nil =>
      cases ys with
      | nil => exact .refl _ .nil
      | cons y ys =>
          obtain ⟨c, s, begins, differs⟩ := opens' y List.mem_cons_self
          rw [opened, opened, begins]
          exact .of_ne fun same => differs (same ▸ List.mem_cons_of_mem _ bracket)
  | cons x xs =>
      cases ys with
      | nil =>
          obtain ⟨c, s, begins, differs⟩ := opens x List.mem_cons_self
          rw [opened, opened, begins]
          exact .of_ne fun same => differs (same ▸ List.mem_cons_of_mem _ bracket)
      | cons y ys =>
          have later : ∀ x ∈ xs, ∀ y ∈ ys, Decides (f x) (g y) (R x y) := fun x member y member' =>
            parts x (List.mem_cons_of_mem _ member) y (List.mem_cons_of_mem _ member')
          exact ((parts x List.mem_cons_self y List.mem_cons_self).append (stops xs) (stops' ys)
            (rest later)).imp fun ⟨first, others⟩ => .cons first others

theorem intercalate_cons (x : α) (xs : List α) : [',', ' '].intercalate ((x :: xs).map f) =
    f x ++ xs.flatMap fun x => ',' :: ' ' :: f x := by
  induction xs generalizing x with
  | nil => simp
  | cons y ys ih =>
      rw [List.map_cons, List.map_cons, List.intercalate_cons_cons, ← List.map_cons, ih y]
      simp

/-- Reading item by item finds the text that was put together with commas. -/
theorem opened_trailing (f : α → List Char) (close : Char) (xs : List α) :
    opened f (trailing f close) close xs = [',', ' '].intercalate (xs.map f) ++ [close] := by
  cases xs with
  | nil => rfl
  | cons x xs =>
      rw [intercalate_cons, List.append_assoc]
      rfl

/-- A tuple of one item has a comma behind it. -/
theorem opened_trailingItems (f : α → List Char) (xs : List α) :
    opened f (trailingItems f) ')' xs =
      [',', ' '].intercalate (xs.map f) ++ if xs.length = 1 then [',', ')'] else [')'] := by
  cases xs with
  | nil => rfl
  | cons x xs =>
      rw [intercalate_cons, List.append_assoc]
      cases xs <;> rfl

end

/-! ## Plain data -/

namespace Value

/-- The value is null, a truth value, an integer, a string or a container. -/
def isPlainKind : Value → Bool
  | null | bool _ | int _ | str _ | tuple _ | list _ | map _ => true
  | _ => false

/-- The type of the plain data whose text begins with a character. -/
def shownBy? (c : Char) : Option TypeTag :=
  if c.isDigit then some .int
  else
    match c with
    | '-' => some .int
    | 'n' => some .null
    | 't' | 'f' => some .bool
    | '"' => some .str
    | '(' => some .tuple
    | '[' => some .list
    | '\x7b' => some .hashMap
    | _ => none

end Value

namespace Heap

/-- A value and all that it contains are plain. -/
def Plain (h : Heap) (v : Value) : Prop :=
  ∀ w, h.Contains v w → w.isPlainKind = true

/-- The values, each on a heap of its own, are the same tree: the kinds are the same throughout,
and so are the truth values, integers and strings, the items in their order and the entries in
theirs. -/
inductive SameTree (h h' : Heap) : Value → Value → Prop where
  | null : SameTree h h' .null .null
  | bool (b : Bool) : SameTree h h' (.bool b) (.bool b)
  | int (i : Int64) : SameTree h h' (.int i) (.int i)
  | str (s : String) : SameTree h h' (.str s) (.str s)
  | tuple {xs ys : List Value} :
      List.Forall₂ (SameTree h h') xs ys → SameTree h h' (.tuple xs) (.tuple ys)
  | list {i j : ListId} :
      List.Forall₂ (SameTree h h') (h.list i).toList (h'.list j).toList →
      SameTree h h' (.list i) (.list j)
  | map {i j : MapId} :
      List.Forall₂ (SameTree h h') (h.map i).keys (h'.map j).keys →
      List.Forall₂ (SameTree h h') (h.map i).values (h'.map j).values →
      SameTree h h' (.map i) (.map j)

variable {h h' : Heap} {v w : Value} {levels depth : Nat}

theorem Plain.kind (plain : h.Plain v) : v.isPlainKind = true :=
  plain v .refl

/-- Members of plain values are plain. -/
theorem Plain.member (plain : h.Plain v) (member : w ∈ h.members v) : h.Plain w :=
  fun u inside => plain u (inside.head member)

theorem plain_of_members (kind : v.isPlainKind = true) (members : ∀ w ∈ h.members v, h.Plain w) :
    h.Plain v := by
  intro u inside
  obtain rfl | ⟨w, member, inside⟩ := inside.cases_head
  · exact kind
  · exact members w member u inside

/-! ## Texts of plain data -/

/-- The text of a value that is followed so many levels deep. -/
def characters (h : Heap) (levels : Nat) (v : Value) : List Char :=
  (h.reprWithin levels v).toList

/-- The text of an entry: the key, a mark and the value. -/
def entryCharacters (h : Heap) (levels : Nat) (e : Value × Value) : List Char :=
  h.characters levels e.1 ++ ':' :: ' ' :: h.characters levels e.2

theorem characters_tuple (items : List Value) (levels : Nat) :
    h.characters (levels + 1) (.tuple items) =
      '(' :: opened (h.characters levels) (trailingItems (h.characters levels)) ')' items := by
  have texts : h.characters levels = fun item => (h.reprWithin levels item).toList := rfl
  rw [characters, reprWithin, opened_trailingItems, texts]
  split <;> simp [String.toList_intercalate, Function.comp_def]

theorem characters_list (i : ListId) (levels : Nat) :
    h.characters (levels + 1) (.list i) =
      '[' :: opened (h.characters levels) (trailing (h.characters levels) ']') ']'
        (h.list i).toList := by
  have texts : h.characters levels = fun item => (h.reprWithin levels item).toList := rfl
  rw [characters, reprWithin, opened_trailing, texts]
  simp [String.toList_intercalate, Function.comp_def]

theorem characters_map (i : MapId) (levels : Nat) :
    h.characters (levels + 1) (.map i) =
      '\x7b' :: opened (h.entryCharacters levels) (trailing (h.entryCharacters levels) '\x7d')
        '\x7d' (h.map i).toList := by
  have entries : h.entryCharacters levels = fun e =>
      (h.reprWithin levels e.1 ++ ": " ++ h.reprWithin levels e.2).toList := by
    funext e
    simp [entryCharacters, characters]
  rw [characters, reprWithin, opened_trailing, entries]
  simp [String.toList_intercalate, Function.comp_def]

/-- The first character tells the type. -/
theorem characters_begin (kind : v.isPlainKind = true) (levels : Nat) : ∃ c s,
    h.characters (levels + 1) v = c :: s ∧ Value.shownBy? c = some v.typeTag := by
  cases v with
  | null => exact ⟨_, _, Text.toList_null, rfl⟩
  | bool b =>
      cases b
      · exact ⟨_, _, Text.toList_false, rfl⟩
      · exact ⟨_, _, Text.toList_true, rfl⟩
  | int i =>
      obtain ⟨c, s, begins, rfl | digit⟩ := Word.text_begins i
      · exact ⟨_, s, begins, rfl⟩
      · exact ⟨c, s, begins, if_pos digit⟩
  | str s => exact ⟨_, _, String.toList_ofList, rfl⟩
  | tuple items => exact ⟨_, _, characters_tuple items levels, rfl⟩
  | list i => exact ⟨_, _, characters_list i levels, rfl⟩
  | map i => exact ⟨_, _, characters_map i levels, rfl⟩
  | _ => cases kind

/-- The first character of a text tells the kind of the value. -/
theorem opens_characters (kind : v.isPlainKind = true) (levels : Nat) :
    Opens (h.characters (levels + 1) v) := by
  obtain ⟨c, s, begins, shown⟩ := characters_begin kind levels
  refine ⟨c, s, begins, fun member => ?_⟩
  have nothing : ∀ c ∈ [',', ')', ']', '\x7d'], Value.shownBy? c = none := by
    simp [Value.shownBy?]
  rw [nothing c member] at shown
  cases shown

/-- Values of different kinds have different texts. -/
theorem decides_of_typeTag {P : Prop} (kind : v.isPlainKind = true) (kind' : w.isPlainKind = true)
    (differ : v.typeTag ≠ w.typeTag) (levels : Nat) :
    Decides (h.characters (levels + 1) v) (h'.characters (levels + 1) w) P := by
  obtain ⟨c, s, begins, shown⟩ := characters_begin (h := h) kind levels
  obtain ⟨d, t, begins', shown'⟩ := characters_begin (h := h') kind' levels
  rw [begins, begins']
  refine .of_ne fun same => differ (Option.some.inj ?_)
  rw [← shown, same, shown']

/-- A map is told by its text if its keys and values are. -/
theorem decides_map {i j : MapId} (opens : ∀ x ∈ h.members (.map i), Opens (h.characters levels x))
    (opens' : ∀ y ∈ h'.members (.map j), Opens (h'.characters levels y))
    (parts : ∀ x ∈ h.members (.map i), ∀ y ∈ h'.members (.map j),
      Decides (h.characters levels x) (h'.characters levels y) (SameTree h h' x y)) :
    Decides (h.characters (levels + 1) (.map i)) (h'.characters (levels + 1) (.map j))
      (SameTree h h' (.map i) (.map j)) := by
  have entries : ∀ e ∈ (h.map i).toList, ∀ f ∈ (h'.map j).toList,
      Decides (h.entryCharacters levels e) (h'.entryCharacters levels f)
        (SameTree h h' e.1 f.1 ∧ SameTree h h' e.2 f.2) := fun e stored f stored' =>
    (parts _ (key_mem_members stored) _ (key_mem_members stored')).append
      (fun _ => stops_cons rfl) (fun _ => stops_cons rfl)
      (parts _ (value_mem_members stored) _ (value_mem_members stored')).cons.cons
  rw [characters_map, characters_map]
  refine (decides_opened (by decide)
    (fun e stored => (opens _ (key_mem_members stored)).append _)
    (fun f stored => (opens' _ (key_mem_members stored)).append _)
    (stops_trailing rfl) (stops_trailing rfl) entries
    (decides_trailing rfl (by decide))).cons.imp fun trees => .map ?_ ?_
  · exact List.forall₂_map_left_iff.2 (List.forall₂_map_right_iff.2
      (trees.imp fun _ _ => And.left))
  · exact List.forall₂_map_left_iff.2 (List.forall₂_map_right_iff.2
      (trees.imp fun _ _ => And.right))

/-- A value is told by its text if the values in it are. -/
theorem decides_succ (kind : v.isPlainKind = true) (kind' : w.isPlainKind = true)
    (opens : ∀ x ∈ h.members v, Opens (h.characters levels x))
    (opens' : ∀ y ∈ h'.members w, Opens (h'.characters levels y))
    (parts : ∀ x ∈ h.members v, ∀ y ∈ h'.members w,
      Decides (h.characters levels x) (h'.characters levels y) (SameTree h h' x y)) :
    Decides (h.characters (levels + 1) v) (h'.characters (levels + 1) w) (SameTree h h' v w) := by
  by_cases type : v.typeTag = w.typeTag
  case neg => exact decides_of_typeTag kind kind' type levels
  cases v with
  | null =>
      cases w with
      | null => exact .refl _ .null
      | _ => cases type
  | bool b =>
      cases w with
      | bool c => exact (Text.decides_truth b c).imp fun same => same ▸ .bool b
      | _ => cases type
  | int i =>
      cases w with
      | int j => exact (Word.decides_text i j).imp fun same => same ▸ .int i
      | _ => cases type
  | str s =>
      cases w with
      | str t => exact (Text.decides_quoted s t).imp fun same => same ▸ .str s
      | _ => cases type
  | tuple xs =>
      cases w with
      | tuple ys =>
          rw [characters_tuple, characters_tuple]
          exact (decides_opened (by decide) opens opens' stops_trailingItems stops_trailingItems
            parts decides_trailingItems).cons.imp .tuple
      | _ => cases type
  | list i =>
      cases w with
      | list j =>
          rw [characters_list, characters_list]
          exact (decides_opened (by decide) opens opens' (stops_trailing rfl) (stops_trailing rfl)
            parts (decides_trailing rfl (by decide))).cons.imp .list
      | _ => cases type
  | map i =>
      cases w with
      | map j =>
          exact decides_map opens opens' parts
      | _ => cases type
  | _ => cases kind

/-- What may not nest at all has no members. -/
theorem members_of_nestsWithin_zero (nests : h.nestsWithin 0 v = true) : h.members v = [] := by
  cases v <;> first | rfl | cases nests

/-- The text of a plain value tells its tree. The induction is on how deep it nests. -/
theorem decides_characters (plain : h.Plain v) (plain' : h'.Plain w)
    (nests : h.nestsWithin depth v = true) (nests' : h'.nestsWithin depth w = true) :
    Decides (h.characters (depth + 1) v) (h'.characters (depth + 1) w) (SameTree h h' v w) := by
  induction depth generalizing v w with
  | zero =>
      have none := members_of_nestsWithin_zero nests
      have none' := members_of_nestsWithin_zero nests'
      refine decides_succ plain.kind plain'.kind ?_ ?_ ?_
      · exact fun x member => absurd (none ▸ member) List.not_mem_nil
      · exact fun y member => absurd (none' ▸ member) List.not_mem_nil
      · exact fun x member => absurd (none ▸ member) List.not_mem_nil
  | succ depth ih =>
      refine decides_succ plain.kind plain'.kind ?_ ?_ ?_
      · exact fun x member => opens_characters (plain.member member).kind depth
      · exact fun y member => opens_characters (plain'.member member).kind depth
      · exact fun x member y member' => ih (plain.member member) (plain'.member member')
          (nestsWithin_member nests member) (nestsWithin_member nests' member')

/-- Plain data with the same text is the same tree, if its containers are nested within the
limit. -/
theorem repr_unambiguous (plain : h.Plain v) (plain' : h'.Plain w)
    (nests : h.nestsWithin Value.maxNesting v = true)
    (nests' : h'.nestsWithin Value.maxNesting w = true) (same : h.repr v = h'.repr w) :
    SameTree h h' v w := by
  have texts : (h.repr v).toList ++ [] = (h'.repr w).toList ++ [] := by rw [same]
  exact (decides_characters plain plain' nests nests' [] [] stops_nil stops_nil texts).1

/-- Two lists with a string that looks like the separator between strings. -/
def separatorHeap : Heap where
  lists := #[#[.str "\", \"", .tuple [.int (-1)]], #[.str "\", \"", .tuple [.int (-1)]]]

theorem repr_unambiguous_separators :
    separatorHeap.repr (.list 0) = separatorHeap.repr (.list 1) ∧
      SameTree separatorHeap separatorHeap (.list 0) (.list 1) := by
  have same : separatorHeap.repr (.list 0) = separatorHeap.repr (.list 1) := rfl
  have members (v : Value) (member : v ∈ [.str "\", \"", .tuple [.int (-1)]]) :
      separatorHeap.Plain v := by
    obtain rfl | rfl := List.mem_pair.1 member
    · exact plain_of_members rfl nofun
    · refine plain_of_members rfl fun w member => ?_
      obtain rfl := List.mem_singleton.1 member
      exact plain_of_members rfl nofun
  exact ⟨same, repr_unambiguous (plain_of_members rfl members) (plain_of_members rfl members)
    (by decide +kernel) (by decide +kernel) same⟩

end Heap
end ScriptMachine
