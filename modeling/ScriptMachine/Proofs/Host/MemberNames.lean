import ScriptMachine.Host.Interchange
import ScriptMachine.Proofs.Host.RoundTrips
import ScriptMachine.Proofs.Host.Spelling
import ScriptMachine.Proofs.Number.FloatText

/-!
Names of members. The natural form of a map names a member after each key: a string stands for
itself and any other key is spelled, so a string may be what another key is spelled as. Among the
other keys a text tells which key it is, except for what is not the same key when it is put in
twice: a float that is not a number, an exception, whose message is not quoted either, a list or a
map, and a tuple that holds one of these or is too deep to be compared. Entries of one name become
one member.
-/

namespace ScriptMachine

/-! ## Objects -/

namespace Json

variable {members : List (String × Json)} {name : String} {value : Json}

theorem setMember_of_not_mem (new : name ∉ members.map Prod.fst) :
    setMember members name value = members ++ [(name, value)] := by
  induction members with
  | nil => rfl
  | cons member rest ih =>
      rw [List.map_cons, List.mem_cons, not_or] at new
      rw [setMember, if_neg (Ne.symm new.1), ih new.2]
      rfl

theorem names_setMember : (setMember members name value).map Prod.fst =
    if name ∈ members.map Prod.fst then members.map Prod.fst
    else members.map Prod.fst ++ [name] := by
  induction members with
  | nil => rfl
  | cons member rest ih =>
      rw [setMember]
      by_cases same : member.1 = name
      · rw [if_pos same, if_pos (by simp [same])]
        rfl
      · rw [if_neg same, List.map_cons, ih]
        by_cases later : name ∈ rest.map Prod.fst
        · simp [later]
        · simp [later, Ne.symm same]

theorem lookup_setMember (other : String) : (setMember members name value).lookup other =
    if other = name then some value else members.lookup other := by
  induction members with
  | nil =>
      rw [setMember, List.lookup_cons]
      split <;> simp_all
  | cons member rest ih =>
      obtain ⟨first, old⟩ := member
      rw [setMember]
      split
      · next same =>
        subst same
        rw [List.lookup_cons, List.lookup_cons]
        split <;> simp_all
      · rw [List.lookup_cons, List.lookup_cons, ih]
        split <;> simp_all

theorem collected_concat (members : List (String × Json)) (member : String × Json) :
    collected (members ++ [member]) = setMember (collected members) member.1 member.2 := by
  rw [collected, List.foldl_append]
  rfl

/-- Every name stands where it came first. -/
theorem names_collected (members : List (String × Json)) :
    (collected members).map Prod.fst = (members.map Prod.fst).eraseDups := by
  induction members using List.reverseRecOn with
  | nil => rfl
  | append_singleton members member ih =>
      rw [collected_concat, names_setMember, List.map_append, List.eraseDups_append]
      simp only [ih, List.mem_eraseDups]
      generalize members.map Prod.fst = names
      by_cases repeated : member.1 ∈ names <;>
        simp [List.removeAll, List.eraseDups_cons, repeated]

/-- Every name has the value that came last. -/
theorem lookup_collected (members : List (String × Json)) (name : String) :
    (collected members).lookup name = members.reverse.lookup name := by
  induction members using List.reverseRecOn with
  | nil => rfl
  | append_singleton members member ih =>
      rw [collected_concat, lookup_setMember, ih, List.reverse_append, List.reverse_singleton,
        List.singleton_append, List.lookup_cons]
      by_cases same : name = member.1
      · simp [same]
      · rw [if_neg same, beq_false_of_ne same]

theorem nodup_names_collected (members : List (String × Json)) :
    ((collected members).map Prod.fst).Nodup := by
  induction members using List.reverseRecOn with
  | nil => exact List.nodup_nil
  | append_singleton members member ih =>
      rw [collected_concat, names_setMember]
      split
      · exact ih
      · next new =>
        refine List.nodup_append.2 ⟨ih, List.nodup_singleton _, fun other old last is => ?_⟩
        rw [List.mem_singleton.1 is]
        exact fun same => new (same ▸ old)

/-- Nothing is lost just if no name is repeated. -/
theorem collected_eq_iff {members : List (String × Json)} :
    collected members = members ↔ (members.map Prod.fst).Nodup := by
  constructor
  · intro same
    rw [← same]
    exact nodup_names_collected members
  · intro distinct
    induction members using List.reverseRecOn with
    | nil => rfl
    | append_singleton members member ih =>
        rw [List.map_append, List.map_singleton, List.nodup_append] at distinct
        obtain ⟨before, -, apart⟩ := distinct
        rw [collected_concat, ih before, setMember_of_not_mem]
        exact fun repeated => apart _ repeated _ (List.mem_singleton_self _) rfl

end Json

namespace HostValue

/-! ## Keys -/

section

variable {key : HostValue}

/-- An exception, a list, a map, or a float that is not a number. Put in twice, none of these is the
same key again. -/
def isElusive : HostValue → Bool
  | .exception _ _ | .list _ | .map _ => true
  | .float f => f.isNaN
  | _ => false

/-- Nothing in the tuples of a key, nor the key itself, is elusive. -/
def Definite (key : HostValue) : Prop :=
  ∀ inner, key.ContainsInTuples inner → inner.isElusive = false

theorem definite_iff :
    key.Definite ↔ key.isElusive = false ∧ ∀ item ∈ key.tupleItems, item.Definite := by
  constructor
  · exact fun definite => ⟨definite key .refl, fun item member inner inside =>
      definite inner (.head member inside)⟩
  · rintro ⟨here, items⟩ inner inside
    rcases inside.cases_head with rfl | ⟨item, member, inside⟩
    · exact here
    · exact items item member inner inside

theorem Definite.keyable (definite : key.Definite) : key.Keyable := by
  intro inner inside
  have here := definite inner inside
  cases inner with
  | list | map => cases here
  | _ => rfl

/-- The key is definite, and a comparison reaches all of it. -/
def Settled (key : HostValue) : Prop :=
  key.Definite ∧ key.nestsWithin Value.maxNesting = true

theorem forall₂_of_common {α β γ : Type} {R : α → β → Prop} {S : α → γ → Prop} {T : β → γ → Prop}
    {as : List α} {bs : List β} {cs : List γ} (first : List.Forall₂ R as bs)
    (second : List.Forall₂ S as cs)
    (each : ∀ a ∈ as, ∀ b c, R a b → S a c → T b c) : List.Forall₂ T bs cs := by
  induction first generalizing cs with
  | nil =>
      cases second
      exact .nil
  | cons here _ ih =>
      cases second with | cons there more => ?_
      exact .cons (each _ List.mem_cons_self _ _ here there)
        (ih more fun a member => each a (List.mem_cons_of_mem _ member))

/-- Two copies of a definite key are equal. -/
theorem keyEqualsWithin_self {low high low' high' budget : Nat} {x y : Value}
    (definite : key.Definite) (nests : key.nestsWithin budget = true)
    (first : IsCopy low high key x) (second : IsCopy low' high' key y) :
    Value.keyEqualsWithin budget x y = some true := by
  induction key using parts_induction generalizing budget x y with
  | step key ih =>
      obtain ⟨here, inner⟩ := definite_iff.1 definite
      cases first with
      | @tuple items xs first =>
          cases second with | @tuple _ ys second => ?_
          have sizes : xs.length = ys.length := first.length_eq.symm.trans second.length_eq
          cases budget with
          | zero => cases nests
          | succ budget =>
              have equal := forall₂_of_common first second fun item member _ _ =>
                ih item member (inner item member) (nestsWithin_part nests member)
              rw [Value.keyEqualsWithin, if_neg (not_not.2 sizes)]
              exact (Value.pairwise_iff.2 equal).2
      | exception => cases here
      | float f =>
          cases second
          have number : f.isNaN = false := here
          simp [Value.keyEqualsWithin, Value.atomEquals, Binary64.equals, number]
      | _ =>
          cases second
          simp [Value.keyEqualsWithin, Value.atomEquals]

/-- A settled key is found again under itself. -/
theorem sameKey_self (importable : key.Importable) (settled : key.Settled) :
    sameKey key key = true := by
  have keyable := settled.1.keyable
  obtain ⟨x, h₁, first⟩ := (accepts_iff key {}).2 importable
  obtain ⟨y, h₂, second⟩ := (accepts_iff key h₁).2 importable
  rw [← keyEquals_of_brings first (.refl h₁) second keyable keyable]
  exact Value.keyEquals_iff.2 (keyEqualsWithin_self settled.1 settled.2
    (isCopy_of_brings first keyable) (isCopy_of_brings second keyable))

end

/-! ## Words -/

section

variable {key a b : HostValue}

/-- A key whose text is a word or a number. -/
inductive IsWord : HostValue → Prop
  | null : IsWord .null
  | bool (b : Bool) : IsWord (.bool b)
  | int (i : Int64) : IsWord (.int i)
  | float (f : Binary64) : IsWord (.float f)

theorem IsWord.mem_text (word : IsWord key) {c : Char} (member : c ∈ key.text.toList) :
    isWordChar c = true := by
  cases word with
  | null =>
      have all : "null".toList.all isWordChar = true := by decide
      exact List.all_eq_true.1 all c member
  | bool b =>
      have all : (if b then "true" else "false").toList.all isWordChar = true := by
        cases b <;> decide
      exact List.all_eq_true.1 all c member
  | int i =>
      rcases Word.mem_text member with rfl | digit
      · rfl
      · simp [isWordChar, digit]
  | float f =>
      have marks : ['-', '.', 'e', 'n', 'a', 'i', 'f'].all isWordChar = true := by decide
      rcases FloatText.mem_text member with digit | mark
      · simp [isWordChar, digit]
      · exact List.all_eq_true.1 marks c mark

/-- Whether letters occur that no number has, and whether letters or marks do that no integer
has. -/
def telling (s : List Char) : Bool × Bool :=
  (s.any (· ∈ ['s', 'u']), s.any (· ∈ ['.', 'e', 'n']))

theorem telling_int (i : Int64) : telling (Word.text i).toList = (false, false) := by
  have none {marks : List Char} (other : marks.all fun c => c != '-' && !c.isDigit) :
      (Word.text i).toList.any (· ∈ marks) = false := by
    rw [List.any_eq_false]
    intro c member mark
    have others := List.all_eq_true.1 other c (of_decide_eq_true mark)
    rcases Word.mem_text member with rfl | digit
    · cases others
    · rw [digit, Bool.not_true, Bool.and_false] at others
      cases others
  rw [telling, none (by decide), none (by decide)]

theorem telling_float (f : Binary64) : telling (FloatText.text f).toList = (false, true) := by
  have letters : (FloatText.text f).toList.any (· ∈ ['s', 'u']) = false := by
    rw [List.any_eq_false]
    intro c member letter
    rcases FloatText.mem_text member with digit | mark
    · rcases List.mem_pair.1 (of_decide_eq_true letter) with rfl | rfl <;> cases digit
    · rcases List.mem_pair.1 (of_decide_eq_true letter) with rfl | rfl <;> revert mark <;> decide
  obtain ⟨c, member, mark⟩ := FloatText.exists_mem_text f
  rw [telling, letters, List.any_eq_true.2 ⟨c, member, decide_eq_true mark⟩]

/-- Words with one text are one key, if they are not elusive. -/
theorem IsWord.eq_of_text (word : IsWord a) (word' : IsWord b) (same : a.text = b.text)
    (number : a.isElusive = false) : a = b := by
  have tells : telling a.text.toList = telling b.text.toList := by rw [same]
  have null : telling (text .null).toList = (true, true) := by decide
  have truth (b : Bool) : telling (text (.bool b)).toList = (true, true) := by cases b <;> decide
  have int (i : Int64) : telling (text (.int i)).toList = (false, false) := telling_int i
  have float (f : Binary64) : telling (text (.float f)).toList = (false, true) := telling_float f
  cases word <;> cases word'
  case null.null => rfl
  case null.bool b => exact absurd same (by cases b <;> decide)
  case bool.null b => exact absurd same (by cases b <;> decide)
  case bool.bool b c =>
    rw [(Text.decides_truth b c).told (congrArg String.toList same)]
  case int.int i j =>
    rw [(Word.decides_text i j).told (congrArg String.toList same)]
  case float.float f g =>
    rcases FloatText.text_inj same with rfl | ⟨nan, -⟩
    · rfl
    · cases number.symm.trans nan
  all_goals simp [null, truth, int, float] at tells

end

/-! ## Texts of keys -/

section

variable {key a b : HostValue}

/-- What the text of a key looks like. -/
inductive Look where
  | word
  | quoted
  | bracketed
  /-- As no text of a definite key does. -/
  | other
deriving DecidableEq

/-- The look of the texts that begin with a character. -/
def Look.ofFirst? (c : Char) : Option Look :=
  if isWordChar c then some .word
  else if c = '"' then some .quoted
  else if c = '(' then some .bracketed
  else if c.isUpper || c = '[' || c = '\x7b' then some .other
  else none

/-- The look of the text of a key. -/
def look : HostValue → Look
  | .str _ => .quoted
  | .tuple _ => .bracketed
  | .exception _ _ | .list _ | .map _ => .other
  | _ => .word

theorem IsWord.look_eq (word : IsWord key) : key.look = .word := by
  cases word <;> rfl

theorem Importable.cases (importable : key.Importable) : IsWord key ∨ (∃ s, key = .str s) ∨
    (∃ items, key = .tuple items) ∨ key.look = .other := by
  cases key with
  | str s => exact .inr (.inl ⟨s, rfl⟩)
  | tuple items => exact .inr (.inr (.inl ⟨items, rfl⟩))
  | exception | list | map => exact .inr (.inr (.inr rfl))
  | repr text => exact absurd rfl ((importable_iff.1 importable).1 text)
  | _ => exact .inl (by constructor)

/-- The characters of a text. -/
def characters (o : HostValue) : List Char :=
  o.text.toList

theorem texts_eq_map (items : List HostValue) : texts items = items.map text := by
  induction items with
  | nil => rfl
  | cons item rest ih => rw [texts, ih, List.map_cons]

theorem characters_tuple (items : List HostValue) : (tuple items).characters =
    '(' :: opened characters (trailingItems characters) ')' items := by
  have texts : characters = fun item => item.text.toList := rfl
  rw [characters, text, opened_trailingItems, texts_eq_map, texts]
  split <;> simp [String.toList_intercalate, Function.comp_def]

theorem IsWord.characters_ne_nil (word : IsWord key) : key.characters ≠ [] := by
  cases word with
  | null => decide
  | bool b => cases b <;> decide
  | int i =>
      obtain ⟨c, s, begins, -⟩ := Word.text_begins i
      exact List.ne_nil_of_mem (begins ▸ List.mem_cons_self)
  | float f =>
      obtain ⟨c, member, -⟩ := FloatText.exists_mem_text f
      exact List.ne_nil_of_mem member

theorem name_begins (type : ExceptionType) :
    ∃ c s, type.name.toList = c :: s ∧ Look.ofFirst? c = some .other := by
  have upper : type.name.toList.head?.bind Look.ofFirst? = some .other := by
    cases type <;> decide
  obtain ⟨c, first, look⟩ := Option.bind_eq_some_iff.1 upper
  obtain ⟨s, begins⟩ := List.head?_eq_some_iff.1 first
  exact ⟨c, s, begins, look⟩

/-- The first character tells the look. -/
theorem characters_begin (importable : key.Importable) :
    ∃ c s, key.characters = c :: s ∧ Look.ofFirst? c = some key.look := by
  have bracket : ("[" : String).toList = ['['] := by decide
  have brace : ("\x7b" : String).toList = ['\x7b'] := by decide
  obtain word | ⟨s, rfl⟩ | ⟨items, rfl⟩ | other := importable.cases
  · obtain ⟨c, s, begins⟩ := List.exists_cons_of_ne_nil word.characters_ne_nil
    have first := word.mem_text (begins ▸ List.mem_cons_self)
    exact ⟨c, s, begins, (if_pos first).trans (congrArg some word.look_eq.symm)⟩
  · exact ⟨_, _, String.toList_ofList, rfl⟩
  · exact ⟨_, _, characters_tuple items, rfl⟩
  · cases key with
    | exception type message =>
        obtain ⟨c, s, begins, look⟩ := name_begins type
        rw [characters, text, headline]
        split
        · exact ⟨c, s, begins, look⟩
        · rw [String.toList_append, String.toList_append, begins]
          exact ⟨c, _, rfl, look⟩
    | list items =>
        rw [characters, text, String.toList_append, String.toList_append, bracket]
        exact ⟨_, _, rfl, rfl⟩
    | map entries =>
        rw [characters, text, String.toList_append, String.toList_append, brace]
        exact ⟨_, _, rfl, rfl⟩
    | _ => cases other

theorem opens_characters (importable : key.Importable) : Opens key.characters := by
  obtain ⟨c, s, begins, look⟩ := characters_begin importable
  refine ⟨c, s, begins, fun member => ?_⟩
  have nothing : [',', ')', ']', '\x7d'].all fun c => (Look.ofFirst? c).isNone := by decide
  rw [Option.isNone_iff_eq_none.1 (List.all_eq_true.1 nothing c member)] at look
  cases look

theorem decides_of_look {P : Prop} (importable : a.Importable) (importable' : b.Importable)
    (differ : a.look ≠ b.look) :
    Decides a.characters b.characters P := by
  obtain ⟨c, s, begins, look⟩ := characters_begin importable
  obtain ⟨d, t, begins', look'⟩ := characters_begin importable'
  rw [begins, begins']
  refine .of_ne fun same => differ (Option.some.inj ?_)
  rw [← look, same, look']

/-- A definite key is told from any other by its text. The other need not be definite: where it is
not, its first character shows that, or it is a float that is not a number. -/
theorem decides_characters (importable : a.Importable) (importable' : b.Importable)
    (definite : a.Definite) : Decides a.characters b.characters (a = b) := by
  induction a using parts_induction generalizing b with
  | step a ih =>
      by_cases looks : a.look = b.look
      case neg => exact decides_of_look importable importable' looks
      obtain ⟨here, inner⟩ := definite_iff.1 definite
      obtain word | ⟨s, rfl⟩ | ⟨xs, rfl⟩ | other := importable.cases
      · obtain word' | ⟨t, rfl⟩ | ⟨ys, rfl⟩ | other := importable'.cases
        · refine .of_words (fun _ => word.mem_text) (fun _ => word'.mem_text) fun same => ?_
          exact word.eq_of_text word' (String.toList_inj.1 same) here
        · cases word.look_eq.symm.trans looks
        · cases word.look_eq.symm.trans looks
        · cases (word.look_eq.symm.trans looks).trans other
      · obtain word' | ⟨t, rfl⟩ | ⟨ys, rfl⟩ | other := importable'.cases
        · cases looks.trans word'.look_eq
        · exact (Text.decides_quoted s t).imp fun same => same ▸ rfl
        · cases looks
        · cases looks.trans other
      · obtain word' | ⟨t, rfl⟩ | ⟨ys, rfl⟩ | other := importable'.cases
        · cases looks.trans word'.look_eq
        · cases looks
        · have items : ∀ x ∈ xs, x.Importable := (importable_iff.1 importable).2.2
          have items' : ∀ y ∈ ys, y.Importable := (importable_iff.1 importable').2.2
          have parts : ∀ x ∈ xs, ∀ y ∈ ys, Decides x.characters y.characters (x = y) :=
            fun x member y member' =>
              ih x member (items x member) (items' y member') (inner x member)
          rw [characters_tuple, characters_tuple]
          refine (decides_opened (by decide) (fun x member => opens_characters (items x member))
            (fun y member => opens_characters (items' y member)) stops_trailingItems
            stops_trailingItems parts decides_trailingItems).cons.imp fun same => ?_
          rw [List.forall₂_eq_eq_eq] at same
          rw [same]
        · cases looks.trans other
      · cases a with
        | exception | list | map => cases here
        | _ => cases other

end

/-! ## Members -/

section

variable {a b : HostValue} {entries : List (HostValue × HostValue)}

/-- Two keys that get one name: a string and what is spelled like it, or keys that are spelled
alike though neither is settled. -/
inductive Clash : HostValue → HostValue → Prop
  | string {s : String} {key : HostValue} : (∀ t, key ≠ .str t) → key.text = s →
      Clash (.str s) key
  | spelling {s : String} {key : HostValue} : (∀ t, key ≠ .str t) → key.text = s →
      Clash key (.str s)
  | alike {a b : HostValue} : (∀ s, a ≠ .str s) → (∀ s, b ≠ .str s) → a.text = b.text →
      ¬ a.Settled → ¬ b.Settled → Clash a b

theorem keyText_of_ne_str {key : HostValue} (other : ∀ s, key ≠ .str s) :
    key.keyText = key.text := by
  cases key with
  | str s => exact absurd rfl (other s)
  | _ => rfl

/-- Unequal keys get one name just if they clash. -/
theorem keyText_eq_iff (importable : a.Importable) (importable' : b.Importable)
    (unequal : sameKey a b = false) : a.keyText = b.keyText ↔ Clash a b := by
  constructor
  · intro same
    by_cases string : ∃ s, a = .str s <;> by_cases string' : ∃ t, b = .str t
    · obtain ⟨s, rfl⟩ := string
      obtain ⟨t, rfl⟩ := string'
      obtain rfl : s = t := same
      have settled : (HostValue.str s).Settled := ⟨definite_iff.2 ⟨rfl, nofun⟩, rfl⟩
      cases unequal.symm.trans (sameKey_self importable settled)
    · obtain ⟨s, rfl⟩ := string
      rw [not_exists] at string'
      exact .string string' ((keyText_of_ne_str string').symm.trans same.symm)
    · obtain ⟨t, rfl⟩ := string'
      rw [not_exists] at string
      exact .spelling string ((keyText_of_ne_str string).symm.trans same)
    · rw [not_exists] at string string'
      rw [keyText_of_ne_str string, keyText_of_ne_str string'] at same
      have characters : a.characters = b.characters := congrArg String.toList same
      -- if one of them is settled, the text says that the other is the same, and so equal to it
      refine .alike string string' same ?_ ?_
      · intro settled
        obtain rfl := (decides_characters importable importable' settled.1).told characters
        cases unequal.symm.trans (sameKey_self importable settled)
      · intro settled
        obtain rfl := (decides_characters importable' importable settled.1).told characters.symm
        cases unequal.symm.trans (sameKey_self importable settled)
  · intro clash
    cases clash with
    | string other is => exact is.symm.trans (keyText_of_ne_str other).symm
    | spelling other is => exact (keyText_of_ne_str other).trans is
    | alike other other' same =>
        exact (keyText_of_ne_str other).trans (same.trans (keyText_of_ne_str other').symm)

/-- The member for an entry. -/
def memberOf (entry : HostValue × HostValue) : String × Json :=
  (entry.1.keyText, entry.2.json)

theorem membersJson_eq_map : membersJson entries = entries.map memberOf := by
  induction entries with
  | nil => rfl
  | cons entry rest ih => rw [membersJson, ih, List.map_cons, memberOf]

theorem json_map : (HostValue.map entries).json = .obj (Json.collected (entries.map memberOf)) := by
  rw [json, membersJson_eq_map, Json.objectOf]

/-- The natural form of a map has a member for each name, where the name comes first and with the
value that comes last. It has one for each entry, in the same order, just if no two keys clash. -/
theorem map_members (keys : ∀ e ∈ entries, Accepts e.1.toValue {})
    (unequal : entries.Pairwise fun e f => sameKey e.1 f.1 = false) :
    ∃ members, (HostValue.map entries).json = .obj members ∧
      (members = entries.map (fun e => (e.1.keyText, e.2.json)) ↔
        entries.Pairwise fun e f => ¬ Clash e.1 f.1) ∧
      members.map Prod.fst = (entries.map fun e => e.1.keyText).eraseDups ∧
      ∀ name, members.lookup name =
        (entries.map fun e => (e.1.keyText, e.2.json)).reverse.lookup name := by
  refine ⟨_, json_map, ?_, ?_, Json.lookup_collected _⟩
  · have importable (e : HostValue × HostValue) (member : e ∈ entries) : e.1.Importable :=
      (accepts_iff e.1 {}).1 (keys e member)
    have names : entries.Pairwise fun e f =>
        (e.1.keyText ≠ f.1.keyText ↔ ¬ Clash e.1 f.1) :=
      (List.Pairwise.and_mem.1 unequal).imp fun ⟨member, member', unequal⟩ =>
        not_congr (keyText_eq_iff (importable _ member) (importable _ member') unequal)
    refine Json.collected_eq_iff.trans ?_
    rw [List.map_map, List.Nodup, List.pairwise_map]
    exact ⟨fun distinct => (names.and distinct).imp fun both => both.1.1 both.2,
      fun apart => (names.and apart).imp fun both => both.1.2 both.2⟩
  · rw [Json.names_collected, List.map_map]
    rfl

/-- A map with keys of every kind. -/
def mixedEntries : List (HostValue × HostValue) :=
  [(.null, .int 0), (.bool true, .int 1), (.int 1, .int 2), (.float (.zero true), .int 3),
    (.str "(1,)", .int 4), (.tuple [.int 1, .str "a"], .int 5),
    (.exception .valueError "1", .int 6)]

theorem map_members_mixedEntries :
    (∀ e ∈ mixedEntries, Accepts e.1.toValue {}) ∧
      (mixedEntries.Pairwise fun e f => sameKey e.1 f.1 = false) ∧
      (HostValue.map mixedEntries).json =
        .obj [("null", .int 0), ("true", .int 1), ("1", .int 2), ("-0.0", .int 3), ("(1,)", .int 4),
          ("(1, \"a\")", .int 5), ("ValueError: 1", .int 6)] ∧
      mixedEntries.Pairwise fun e f => ¬ Clash e.1 f.1 := by
  have keys : ∀ e ∈ mixedEntries, Accepts e.1.toValue {} := by
    simp only [mixedEntries, List.forall_mem_cons]
    refine ⟨?_, ?_, ?_, ?_, ?_, ?_, ?_, List.forall_mem_nil _⟩ <;> exact ⟨_, _, rfl⟩
  have unequal : mixedEntries.Pairwise fun e f => sameKey e.1 f.1 = false := by decide +kernel
  obtain ⟨members, is, complete, -⟩ := map_members keys unequal
  refine ⟨keys, unequal, rfl, complete.1 ?_⟩
  cases is
  rfl

/-- A string and the number that is spelled like it. -/
def numeralEntries : List (HostValue × HostValue) :=
  [(.str "1", .str "a"), (.int 1, .str "b")]

theorem numeralEntries_lost :
    (∀ e ∈ numeralEntries, Accepts e.1.toValue {}) ∧
      (numeralEntries.Pairwise fun e f => sameKey e.1 f.1 = false) ∧
      (HostValue.map numeralEntries).json = .obj [("1", .str "b")] ∧
      ¬ ∃ members, (HostValue.map numeralEntries).json = .obj members ∧
        members.map Prod.snd = numeralEntries.map fun e => e.2.json := by
  have shown : (HostValue.map numeralEntries).json = .obj [("1", .str "b")] := rfl
  refine ⟨?_, by decide +kernel, shown, ?_⟩
  · exact List.forall_mem_cons.2 ⟨⟨_, _, rfl⟩, List.forall_mem_singleton.2 ⟨_, _, rfl⟩⟩
  · rintro ⟨members, is, values⟩
    cases shown.symm.trans is
    exact absurd (congrArg List.length values) (by decide)

end

end HostValue
end ScriptMachine
