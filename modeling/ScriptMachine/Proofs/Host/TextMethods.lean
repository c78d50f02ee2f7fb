import ScriptMachine.Proofs.Host.Methods
import ScriptMachine.Proofs.Machine.Gathering
import ScriptMachine.Proofs.Text.Positions

/-!
Methods of texts as programs see them. A call of a method that needs no other values is done with
one primitive; a call of `join` goes through the list that it is given and joins the texts of the
items. All methods take positions for numbers of characters, so that they agree on where one text
occurs in another, and what is cut at the occurrences can be joined again.
-/

namespace ScriptMachine

open ScriptMachine.Action

namespace Machine

variable {m : Machine} {callee v : Value} {args : List Value} {s t : String} {number : Nat}
  {h : Heap}

/-! ## Calls -/

/-- The call that comes next: the callee and the arguments. -/
def invocation? (m : Machine) : Option (Value × List Value) := do
  let (f, i) ← m.fetch?
  match i.op, f.stack with
  | .invoke, callee :: s => if i.arg ≤ s.length then some (callee, (s.take i.arg).reverse) else none
  | _, _ => none

/-- The step takes the operands off and calls the value. -/
theorem upcoming_invocation (next : m.invocation? = some (callee, args)) :
    ∃ f rest n, m.frames = f :: rest ∧
      n.frames = { f with ip := f.ip + 1, stack := f.stack.drop (args.length + 1) } :: rest ∧
      n.heap = m.heap ∧ m.upcoming.result m = (invoke callee args).result n := by
  obtain ⟨f, rest, i, fetches, next⟩ := fetches_of_bind_fetch? next
  dsimp only at next
  split at next
  · next _ s is here =>
      obtain ⟨enough, same⟩ := Option.ite_none_right_eq_some.1 next
      cases same
      have length : (s.take i.arg).length = i.arg := by
        rw [List.length_take, Nat.min_eq_left enough]
      have parts : (fetched m f i).stack = callee :: (s.take i.arg ++ s.drop i.arg) := by
        rw [fetches.stack, here, List.take_append_drop]
      refine ⟨f, rest, (fetched m f i).withStack (s.drop i.arg), fetches.frames, ?_,
        heap_fetched m f i, ?_⟩
      · rw [fetches.frames_withStack, here, List.length_reverse, length]
        rfl
      · rw [fetches.upcoming, execute_invoke is parts length]
  · cases next

/-- The step fails with nothing, and later the value stands in the place of the operands. -/
structure Gives (m k : Machine) (taken : Nat) (v : Value) : Prop where
  failure : m.failure? = none
  yields : m.Yields k taken v

/-- A call that hands on a value at once gives it. -/
theorem gives_of_invocation (next : m.invocation? = some (callee, args))
    (hands : ∀ n : Machine, n.heap = m.heap →
      (invoke callee args).result n = (.ok (), n.delivering h v .push)) :
    m.Gives (m.run 2) (args.length + 1) v ∧ (m.run 2).heap = h := by
  obtain ⟨f, rest, n, frames, below, heap, upcoming⟩ := upcoming_invocation next
  obtain ⟨fine, yields, kept⟩ := yields_of_delivering (n := { n with heap := h }) frames below
    (upcoming.trans (hands n heap))
  exact ⟨⟨fine, yields⟩, kept⟩

/-- The method of a text is called next. -/
def Calls (m : Machine) (s : String) (fn : TextMethod) (args : List Value) : Prop :=
  ∃ number, m.invocation? = some (.bound (.str s) (.native ⟨.text fn, number⟩), args)

/-- The size of a text is asked for next. -/
def Measures (m : Machine) (s : String) : Prop :=
  ∃ number, m.invocation? = some (.native ⟨.builtin .len, number⟩, [.str s])

theorem gives_len (next : m.Measures s) : m.Gives (m.run 2) 2 (.int (Int64.ofNat s.length)) := by
  obtain ⟨number, next⟩ := next
  refine (gives_of_invocation (h := m.heap) next fun n heap => ?_).1
  rw [← heap]
  rfl

/-- All methods but `join` do their work at once. -/
theorem result_textMethod {fn : TextMethod} (atOnce : fn ≠ .join)
    (arity : ∀ n ∈ fn.arity?, n = args.length) (m : Machine) :
    (invoke (.bound (.str s) (.native ⟨.text fn, number⟩)) args).result m =
      (do deliver (← primitive (Operation.textMethod fn (some (.str s)) args)) .push).result m := by
  change (callNative (.text fn) (some (.str s)) args .push).result m = _
  unfold callNative
  dsimp only [Native.arity?]
  cases count : fn.arity? with
  | none => cases fn <;> first | exact absurd rfl atOnce | rfl
  | some n =>
      dsimp only
      rw [if_neg (not_not_intro (arity n count))]
      cases fn <;> first | exact absurd rfl atOnce | rfl

theorem gives_of_calls {fn : TextMethod} (next : m.Calls s fn args) (atOnce : fn ≠ .join)
    (arity : ∀ n ∈ fn.arity?, n = args.length)
    (given : (Operation.textMethod fn (some (.str s)) args).result m.heap = (.ok v, h)) :
    m.Gives (m.run 2) (args.length + 1) v ∧ (m.run 2).heap = h := by
  obtain ⟨number, next⟩ := next
  refine gives_of_invocation next fun n heap => ?_
  rw [← heap] at given
  rw [result_textMethod atOnce arity, result_bind_ok (result_primitive_ok given)]
  rfl

theorem failure?_of_calls {fn : TextMethod} {cause : Fault} (next : m.Calls s fn args)
    (atOnce : fn ≠ .join) (arity : ∀ n ∈ fn.arity?, n = args.length)
    (failed : (Operation.textMethod fn (some (.str s)) args).result m.heap = (.error cause, h)) :
    m.failure? = some cause.type := by
  obtain ⟨number, next⟩ := next
  obtain ⟨f, rest, n, frames, below, heap, upcoming⟩ := upcoming_invocation next
  rw [← heap] at failed
  rw [result_textMethod atOnce arity, result_bind, result_primitive_error failed] at upcoming
  exact failure?_of_fault upcoming

theorem gives_contains (next : m.Calls s .contains [.str t]) :
    m.Gives (m.run 2) 2 (.bool (Text.contains t.toList s.toList)) :=
  (gives_of_calls next nofun (by simp [TextMethod.arity?]) rfl).1

theorem gives_indexOf (next : m.Calls s .indexOf [.str t]) :
    m.Gives (m.run 2) 2 (Operation.indexValue (Text.find? t.toList s.toList)) :=
  (gives_of_calls next nofun (by simp [TextMethod.arity?]) rfl).1

theorem gives_startsWith (next : m.Calls s .startsWith [.str t]) :
    m.Gives (m.run 2) 2 (.bool (s.startsWith t)) :=
  (gives_of_calls next nofun (by simp [TextMethod.arity?]) rfl).1

theorem gives_replace {r : String} (next : m.Calls s .replace [.str t, .str r]) :
    m.Gives (m.run 2) 3 (.str (String.ofList (Text.replace t.toList r.toList s.toList))) :=
  (gives_of_calls next nofun (by simp [TextMethod.arity?]) rfl).1

/-- The step and the next one put what is cut out in the place of the operands, or the positions are
refused. -/
def Cuts (m : Machine) : Option String → Prop
  | some piece => m.Gives (m.run 2) 3 (.str piece)
  | none => m.failure? = some .indexError

theorem cuts_substr {i j : Int64} (next : m.Calls s .substr [.int i, .int j]) :
    m.Cuts (Text.between? s i j) := by
  have does : (Operation.textMethod .substr (some (.str s)) [.int i, .int j]).result m.heap =
      (Operation.substring s i j, m.heap) := by
    change (liftM (Operation.substring s i j) : Primitive Value).result m.heap = _
    exact Primitive.result_lift _ _
  unfold Text.between?
  unfold Operation.substring at does
  split at does
  · next outside =>
      rw [if_pos outside]
      exact failure?_of_calls next nofun nofun does
  · next inside =>
      rw [if_neg inside]
      exact (gives_of_calls next nofun nofun does).1

/-- A text is split into a new list. -/
theorem gives_split (next : m.Calls s .split [.str t]) (nonempty : t ≠ "") :
    ∃ id, m.Gives (m.run 2) 2 (.list id) ∧ ((m.run 2).heap.list id).toList =
      ((Text.split t.toList s.toList).map String.ofList).map .str := by
  let pieces := (Text.split t.toList s.toList).map fun piece => Value.str (String.ofList piece)
  have does : (Operation.textMethod .split (some (.str s)) [.str t]).result m.heap =
      (.ok (.list m.heap.lists.size), (m.heap.newList pieces.toArray).2) := by
    change (do
      if t = "" then throw .emptySeparator
      Primitive.make (·.newList pieces.toArray) : Primitive Value).result m.heap = _
    rw [if_neg nonempty]
    rfl
  obtain ⟨gives, heap⟩ := gives_of_calls next nofun (by simp [TextMethod.arity?]) does
  refine ⟨_, gives, ?_⟩
  rw [heap]
  simp [Heap.newList, Heap.list, pieces]

/-! ## Joining -/

theorem text_produces (h : Heap) (s : String) : Produces (text (.str s)) h (.str s) h := by
  rintro m pending rfl
  rfl

/-- A text that has been made is put to those made before, and it is gone on with the next. -/
theorem step_showRest (shown rest : List String) (part : String) (m : Machine) (pending : Pending) :
    (m.delivering h (.str part) (pending.before (.showRest shown (rest.map .str)))).step =
      (m.delivering h (.str part) (pending.before (.showRest shown (rest.map .str)))).perform
        (showRest (part :: shown) (rest.map .str) pending) := by
  have same (n : Machine) :
      (performTask (.showRest shown (rest.map .str)) (.str part) pending).result n =
        (showRest (part :: shown) (rest.map .str) pending).result n :=
    result_bind_ok (result_askHeap _ n)
  change Machine.perform _ (performTask (.showRest shown (rest.map .str)) (.str part) pending) = _
  rw [perform_eq, perform_eq, same]

/-- Texts are shown one in each step, after those shown already. -/
theorem run_showRest (shown parts : List String) (m : Machine) (pending : Pending) :
    (m.perform (showRest shown (parts.map .str) pending)).run parts.length =
      m.delivering m.heap (.tuple ((shown.reverse ++ parts).map .str)) pending := by
  induction parts generalizing shown m with
  | nil =>
      rw [List.append_nil]
      exact (deliver_produces m.heap _).perform rfl pending
  | cons part parts ih =>
      have first : m.perform (showRest shown ((part :: parts).map .str) pending) =
          m.delivering m.heap (.str part) (pending.before (.showRest shown (parts.map .str))) :=
        (text_produces m.heap part).perform rfl _
      rw [first, List.length_cons, ← run_step, step_showRest, ih, List.reverse_cons,
        List.append_assoc]
      rfl

theorem texts_tuple (parts : List String) : (Value.tuple (parts.map .str)).texts = parts := by
  rw [Value.texts, Value.items, List.filterMap_map]
  exact List.filterMap_some

/-- Texts that have been made are joined at once. -/
theorem join_produces (h : Heap) (s : String) (parts : List String) :
    Produces (fun pending => do
      deliver (← primitive (Operation.textMethod .join (some (.str s))
        [.tuple (parts.map .str)])) pending) h (.str (s.intercalate parts)) h := by
  rintro k pending heap
  have does : (Operation.textMethod .join (some (.str s)) [.tuple (parts.map .str)]).result k.heap =
      (.ok (.str (s.intercalate parts)), k.heap) := by
    conv_rhs => rw [← texts_tuple parts]
    rfl
  rw [result_bind_ok (result_primitive_ok does), ← heap]
  rfl

/-- The items of a list are joined if they are texts. -/
theorem gives_join {id : ListId} {parts : List String} (next : m.Calls s .join [.list id])
    (items : (m.heap.list id).toList = parts.map .str) :
    m.Gives (m.run (parts.length + 4)) 2 (.str (s.intercalate parts)) := by
  obtain ⟨number, next⟩ := next
  obtain ⟨f, rest, n, frames, below, heap, upcoming⟩ := upcoming_invocation next
  rw [← heap] at items
  let joining := Pending.push.before (.joinTexts (some (.str s)))
  have collects : (invoke (.bound (.str s) (.native ⟨.text .join, number⟩)) [.list id]).result n =
      (.ok (), n.delivering n.heap (.tuple (n.heap.list id).toList) (joining.before .showItems)) :=
    rfl
  rw [collects, items] at upcoming
  have started : m.step = _ := perform_of_ok upcoming
  have shown : (m.step.step).run parts.length =
      n.delivering n.heap (.tuple (parts.map .str)) joining := by
    rw [started]
    exact run_showRest [] parts _ joining
  have joined : (n.delivering n.heap (.tuple (parts.map .str)) joining).step =
      n.delivering n.heap (.str (s.intercalate parts)) .push :=
    (join_produces n.heap s parts).step rfl n
  have delivers : (n.delivering n.heap (.str (s.intercalate parts)) .push).Delivers n.frames .push
      (.str (s.intercalate parts)) := ⟨rfl, rfl⟩
  refine ⟨failure?_of_ok upcoming, ?_⟩
  have counts : m.run (parts.length + 4) = ((m.step.step.run parts.length).step).step := by
    rw [run_step, run_step, run_succ, run_succ]
  rw [counts, shown, joined]
  exact (below ▸ delivers).yields frames

/-! ## Agreement -/

/-- The methods agree. A text is contained in another if its index is not -1; the index is the least
position from which, as far as the text is long, it can be cut out, and the other starts with the
text if the index is zero. What is split at a text that is not empty has no such text left in its
parts, is had again when the parts are joined with the text, and is what replacing the text gives
when they are joined with another. The sizes of texts in memory are words. -/
theorem text_methods_agree (s t r : String) (fits : Word.Fits s.length)
    (fits' : Word.Fits t.length) :
    (∃ (found : Bool) (index length : Int64),
      (∀ m : Machine, m.Calls s .contains [.str t] → m.Gives (m.run 2) 2 (.bool found)) ∧
      (∀ m : Machine, m.Calls s .indexOf [.str t] → m.Gives (m.run 2) 2 (.int index)) ∧
      (∀ m : Machine, m.Calls s .startsWith [.str t] →
        m.Gives (m.run 2) 2 (.bool (index == 0))) ∧
      (∀ m : Machine, m.Measures t → m.Gives (m.run 2) 2 (.int length)) ∧
      (∀ (m : Machine) first stop, m.Calls s .substr [.int first, .int stop] →
        m.Cuts (Text.between? s first stop)) ∧
      (index = -1 ↔ found = false) ∧
      (index = -1 → Text.Positions (Text.between? s) t length = ∅) ∧
      (index ≠ -1 → IsLeast (Text.Positions (Text.between? s) t length) index)) ∧
    (t ≠ "" → ∃ (parts : List String) (replaced : String),
      (∀ m : Machine, m.Calls s .split [.str t] → ∃ id, m.Gives (m.run 2) 2 (.list id) ∧
        ((m.run 2).heap.list id).toList = parts.map .str) ∧
      (∀ part ∈ parts, ∀ m : Machine, m.Calls part .contains [.str t] →
        m.Gives (m.run 2) 2 (.bool false)) ∧
      (∀ m : Machine, m.Calls s .replace [.str t, .str r] →
        m.Gives (m.run 2) 3 (.str replaced)) ∧
      ∀ (m : Machine) id, (m.heap.list id).toList = parts.map .str →
        (m.Calls t .join [.list id] → m.Gives (m.run (parts.length + 4)) 2 (.str s)) ∧
        (m.Calls r .join [.list id] → m.Gives (m.run (parts.length + 4)) 2 (.str replaced))) := by
  refine ⟨?searching, fun nonempty => ?cutting⟩
  case searching =>
    obtain ⟨index, is, absent, start, none, least⟩ := Text.exists_index fits fits'
    refine ⟨_, index, _, fun m => gives_contains, fun m next => ?_, fun m next => ?_,
      fun m => gives_len, fun m _ _ => cuts_substr, absent, none, least⟩
    · exact is ▸ gives_indexOf next
    · exact start ▸ gives_startsWith next
  case cutting =>
    have nonempty' : t.toList ≠ [] := fun none => nonempty (String.toList_inj.1 none)
    refine ⟨_, _, fun m next => gives_split next nonempty, fun part member m next => ?_,
      fun m => gives_replace, fun m id items => ⟨fun next => ?_, fun next => ?_⟩⟩
    · obtain ⟨piece, cut, rfl⟩ := List.mem_map.1 member
      have gives := gives_contains next
      rwa [String.toList_ofList, Text.contains_of_mem_split nonempty' cut] at gives
    · have gives := gives_join next items
      rwa [Text.intercalate_parts] at gives
    · have gives := gives_join next items
      rwa [Text.intercalate_parts_other s r nonempty'] at gives

end Machine

/-- A function that looks for a text in another, and splits the other at it and joins the parts. -/
def joiningTexts : List Stmt :=
  [.function {} (.mk { name := "main" }
    [.ret {} (some (.tuple {} [
      .call {} (.attr {} (.str {} "žababac") "indexOf") [.str {} "aba"] [],
      .call {} (.attr {} (.str {} "aba") "join")
        [.call {} (.attr {} (.str {} "žababac") "split") [.str {} "aba"] []] []]))])]

/-- The machine of a host that calls the function, after some steps. -/
def joiningMachine (steps : Nat) : Machine :=
  (HostCall.value (.method 0) []).after
    (Engine.loaded (compiledUnit joiningTexts)).machine steps

theorem Value.eq_of_receivers {vs : List Value} (receivers : List Receiver)
    (are : vs.map Value.receiver? = receivers.map some) : vs = receivers.map Receiver.toValue := by
  induction vs generalizing receivers with
  | nil => rw [List.map_eq_nil_iff.1 are.symm, List.map_nil]
  | cons v vs ih =>
      obtain ⟨receiver, rest, rfl, is, are⟩ := List.map_eq_cons_iff.1 are.symm
      rw [List.map_cons, Value.eq_of_receiver? is.symm, ih _ are.symm]

theorem Machine.calls_of_receivers {m : Machine} {s : String} {fn : TextMethod} (number : Nat)
    (receivers : List Receiver) (next : m.invocation?.map
      (fun (callee, args) => (callee.bound?, args.map Value.receiver?)) =
        some (some (.str s, .native ⟨.text fn, number⟩), receivers.map some)) :
    m.Calls s fn (receivers.map Receiver.toValue) := by
  obtain ⟨⟨callee, args⟩, found, same⟩ := Option.map_eq_some_iff.1 next
  obtain ⟨is, are⟩ : callee.bound? = some (.str s, .native ⟨.text fn, number⟩) ∧
      args.map Value.receiver? = receivers.map some := Prod.mk.inj same
  refine ⟨number, ?_⟩
  rw [found, Value.eq_of_bound? is, Value.eq_of_receivers _ are]

/-- The value on top. -/
def Machine.top? (m : Machine) : Option Value := do
  let f ← m.frames.head?
  f.stack.head?

theorem Machine.Yields.top? {m k : Machine} {taken : Nat} {v : Value}
    (yields : m.Yields k taken v) : k.top? = some v := by
  obtain ⟨f, rest, -, frames⟩ := yields.frames
  rw [Machine.top?, frames]
  rfl

/-- The text occurs twice, but the occurrences overlap. The first stands behind one character, which
takes more than a byte. -/
theorem text_methods_agree_overlapping :
    let find := joiningMachine 4
    let split := joiningMachine 10
    let join := joiningMachine 15
    find.Calls "žababac" .indexOf [.str "aba"] ∧ find.Gives (find.run 2) 2 (.int 1) ∧
      split.Calls "žababac" .split [.str "aba"] ∧ split.Gives (split.run 2) 2 (.list 0) ∧
      join.Calls "aba" .join [.list 0] ∧ join.Gives (join.run 6) 2 (.str "žababac") := by
  intro find split join
  have finds : find.Calls "žababac" .indexOf [.str "aba"] :=
    Machine.calls_of_receivers 0 [.str "aba"] (by decide +kernel)
  have splits : split.Calls "žababac" .split [.str "aba"] :=
    Machine.calls_of_receivers 1 [.str "aba"] (by decide +kernel)
  have joins : join.Calls "aba" .join [.list 0] :=
    Machine.calls_of_receivers 2 [.list 0] (by decide +kernel)
  obtain ⟨⟨_, index, _, -, indexOf, -⟩, cutting⟩ :=
    Machine.text_methods_agree "žababac" "aba" "" (by decide +kernel) (by decide +kernel)
  obtain ⟨parts, _, separates, -, -, combines⟩ := cutting (by decide)
  have found := indexOf find finds
  obtain ⟨id, gives, items⟩ := separates split splits
  have one : Value.int index = .int 1 :=
    (found.yields.unique (Machine.gives_indexOf finds).yields).trans
      (congrArg Operation.indexValue (by decide +kernel : _ = some 1))
  obtain rfl : id = 0 := by
    have top : (split.run 2).top?.bind Value.receiver? = some (.list 0) := by decide +kernel
    rw [gives.yields.top?] at top
    cases top
    rfl
  cases one
  have parts_split : ((split.run 2).heap.list 0).toList = _ :=
    Value.eq_of_receivers [.str "ž", .str "bac"] (by decide +kernel)
  have parts_join : (join.heap.list 0).toList = _ :=
    Value.eq_of_receivers [.str "ž", .str "bac"] (by decide +kernel)
  have two : parts.length = 2 := by
    rw [← List.length_map (f := Value.str), ← items, parts_split]
    rfl
  have combined := (combines join 0 ((parts_join.trans parts_split.symm).trans items)).1 joins
  rw [two] at combined
  exact ⟨finds, found, splits, gives, joins, combined⟩

end ScriptMachine
