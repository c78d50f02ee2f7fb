import ScriptMachine.Proofs.Code.Typing

/-!
The code of every valid linked tree is typed: an expression adds one value to the stack, an
assignment target takes one off, and a statement leaves the stack and the open regions as it
found them.
-/

namespace ScriptMachine.Linked

variable {ctx : Context} {slots : Nat} {loop : Option Layout} {regions : List Region}

/-- Wherever a variable lies, reading it pushes one operand. -/
theorem Ref.load_typed (ref : Ref) {loc : Location} {start depth : Nat}
    (level : Level depth regions) :
    Typed ctx.pool loop (Guarded regions) [ref.load loc] start (view depth regions)
      (view (depth + 1) regions) := by
  cases ref <;> exact .plain 0 level

/-- Wherever a variable lies, setting it takes one operand. -/
theorem Ref.store_typed (ref : Ref) {loc : Location} {start depth : Nat}
    (level : Level depth regions) :
    Typed ctx.pool loop (Guarded regions) [ref.store loc] start (view (depth + 1) regions)
      (view depth regions) := by
  cases ref <;> exact .plain 1 level

/-- Each step of a path replaces an object by its attribute. -/
theorem loadSegments_typed (path : List NameConst) {loc : Location} {start depth : Nat}
    (level : Level depth regions) :
    Typed ctx.pool loop (Guarded regions)
      (path.map fun segment => .of loc .loadAttribute segment.const) start
      (view (depth + 1) regions) (view (depth + 1) regions) := by
  induction path generalizing start with
  | nil => exact .nil
  | cons segment rest ih =>
      exact .cons (.plain 1 level) ih

/-- A base is found by its path, which has a first name. -/
theorem loadBase_typed {path : BasePath} {loc : Location} {start depth : Nat}
    (level : Level depth regions) (named : path ≠ []) :
    Typed ctx.pool loop (Guarded regions) (loadBase loc path) start (view depth regions)
      (view (depth + 1) regions) := by
  cases path with
  | nil => exact absurd rfl named
  | cons first rest =>
      exact .cons (.plain 0 level) (loadSegments_typed rest level)

/-- The constructors of the bases are called one after the other and leave nothing behind. -/
theorem callBases_typed {bases : List BasePath} {loc : Location} {start depth : Nat}
    (level : Level depth regions) (named : ∀ path ∈ bases, path ≠ []) :
    Typed ctx.pool loop (Guarded regions) (callBases loc bases) start (view depth regions)
      (view depth regions) := by
  induction bases generalizing start with
  | nil => exact .nil
  | cons base rest ih =>
      obtain ⟨first, others⟩ := List.forall_mem_cons.1 named
      exact .append (.append (loadBase_typed level first) (.plain 1 level)) (ih others)

/-- Keywords are packed into one map, or there are none and no map. -/
theorem packKeywords_typed {count : Nat} {loc : Location} {start depth : Nat}
    (level : Level depth regions) :
    Typed ctx.pool loop (Guarded regions) (packKeywords loc count) start
      (view (depth + count * 2) regions)
      (view (depth + (packKeywords loc count).length) regions) := by
  by_cases none : count = 0
  · subst none
    exact .nil
  · simp only [packKeywords, none, if_false]
    exact .plain (count * 2) level

mutual

/-- The code of an expression pushes one operand and opens no region. The induction is on the
expression. -/
theorem Expr.typed : (e : Expr) → e.Valid ctx true slots → ∀ {start depth : Nat},
    Level depth regions →
    Typed ctx.pool loop (Guarded regions) (e.code start) start (view depth regions)
      (view (depth + 1) regions)
  | .null _, _, _, _, level => .plain 0 level
  | .bool _ true, _, _, _, level => .plain 0 level
  | .bool _ false, _, _, _, level => .plain 0 level
  | .int _ _ _, _, _, _, level => .plain 0 level
  | .float _ _ _, _, _, _, level => .plain 0 level
  | .str _ _, _, _, _, level => .plain 0 level
  | .name _ _ ref, _, _, _, level => ref.load_typed level
  | .self _, _, _, _, level => .plain 0 level
  | .attr _ target _, valid, _, _, level =>
      .append (target.typed valid.1 level) (.plain 1 level)
  | .index _ target index, valid, _, _, level =>
      .append (.append (target.typed valid.1 level)
        (index.typed valid.2 (level.mono (Nat.le_succ _)))) (.plain 2 level)
  | .call _ callee args keywords, valid, _, depth, level =>
      .append (.append
        (.append (.append (typed_exprs args valid.1 level)
            (typed_keywords keywords valid.2.1 (level.mono (Nat.le_add_right _ _))))
          (packKeywords_typed (level.mono (Nat.le_add_right _ _))))
        (callee.typed valid.2.2 (level.mono (by omega))))
        (by
          rw [show ∀ a b, depth + a + b + 1 = depth + (a + b + 1) by omega]
          exact .plain (args.length + _ + 1) level)
  | .superCall _ args base, valid, _, depth, level => by
      obtain ⟨given_, named, based⟩ := valid
      obtain ⟨path, rfl⟩ := Option.ne_none_iff_exists'.1 (based rfl)
      refine .append (.append (typed_exprs args given_ level)
        (loadBase_typed (level.mono (Nat.le_add_right _ _)) (named path rfl).1)) ?_
      exact .cons (.plain (args.length + 1) level) (.plain 0 level)
  | .binary _ op left right, valid, start, depth, level => by
      have shortCircuit : ∀ {skip : Opcode}, skip = .jumpIfTrue ∨ skip = .jumpIfFalse →
          Typed ctx.pool loop (Guarded regions)
            (left.code start ++ [.of left.stamp .dup,
              .of left.stamp skip (start + (left.code start).length + 3
                + (right.code (start + (left.code start).length + 3)).length),
              .of left.stamp .pop] ++ right.code (start + (left.code start).length + 3))
            start (view depth regions) (view (depth + 1) regions) := by
        intro skip conditional
        refine .row [(_, view depth regions), (_, view (depth + 1) regions),
          (_, view depth regions)] rfl ⟨?_, ?_, ?_, trivial⟩
        · exact (left.typed valid.1 level).weaken fun _ holds => holds.1
        · refine .cons (v := view (depth + 2) regions)
            ((Typed.plain 1 level).weaken fun _ holds => holds.1)
            (.cons ?_ ((Typed.plain 1 level).weaken fun _ holds => holds.1))
          exact .branch (level.mono (Nat.le_succ _)) conditional
            fun _ holds => ⟨holds.1, holds.2.2.2.2⟩
        · exact (right.typed valid.2 level).weaken fun _ holds => holds.1
      have strict : ∀ {tag : Nat} {loc : Location}, Typed ctx.pool loop (Guarded regions)
          (left.code start ++ right.code (start + (left.code start).length) ++ [.of loc .binOp tag])
          start (view depth regions) (view (depth + 1) regions) :=
        .append (.append (left.typed valid.1 level)
          (right.typed valid.2 (level.mono (Nat.le_succ _)))) (.plain 2 level)
      cases op with
      | boolAnd => exact shortCircuit (.inr rfl)
      | boolOr => exact shortCircuit (.inl rfl)
      | _ => exact strict
  | .unary _ _ operand, valid, _, _, level =>
      .append (operand.typed valid level) (.plain 1 level)
  | .assign _ target value, valid, _, _, level =>
      .append (.append (value.typed valid.1 level) (.plain 1 level))
        (target.typed valid.2 (level.mono (Nat.le_succ _)))
  | .update _ _ old value target, valid, _, depth, level => by
      exact .append (.append (.append (old.typed valid.1 level)
          (value.typed valid.2.1 (level.mono (Nat.le_succ _))))
        (.cons (v := view (depth + 1) regions) (.plain 2 level) (.plain 1 level)))
        (target.typed valid.2.2 (level.mono (Nat.le_succ _)))
  | .list _ items, valid, _, _, level =>
      .append (typed_exprs items valid level) (.plain items.length level)
  | .tuple _ items, valid, _, _, level =>
      .append (typed_exprs items valid level) (.plain items.length level)
  | .hash _ pairs, valid, _, _, level =>
      .append (typed_pairs pairs valid level) (.plain (pairs.length * 2) level)
  | .lambda _ _ method const closes, valid, _, _, level => by
      cases closes with
      | false => exact .plain 0 level
      | true =>
          have known : Top.Holds ctx.pool const (.method method) := valid.held
          exact .cons (.known level known) (.closure level)
  | .isType _ value type, valid, _, _, level =>
      .append (.append (value.typed valid.1 level)
        (type.typed valid.2 (level.mono (Nat.le_succ _)))) (.plain 2 level)
  | .asType _ value type, valid, _, _, level =>
      .append (.append (value.typed valid.1 level)
        (type.typed valid.2 (level.mono (Nat.le_succ _)))) (.plain 2 level)
  | .coalesce _ left right, valid, start, depth, level => by
      refine .row [(_, view depth regions), (_, view (depth + 1) regions),
        (_, view depth regions)] rfl ⟨?_, ?_, ?_, trivial⟩
      · exact (left.typed valid.1 level).weaken fun _ holds => holds.1
      · exact .coalesce level fun _ holds => ⟨holds.1, holds.2.2.2.2⟩
      · exact (right.typed valid.2 level).weaken fun _ holds => holds.1
  | .ternary _ condition thenValue elseValue, valid, start, depth, level => by
      refine .row [(_, view depth regions), (_, view (depth + 1) regions),
        (_, view depth regions), (_, view (depth + 1) regions), (_, view depth regions)] rfl
        ⟨?_, ?_, ?_, ?_, ?_, trivial⟩
      · exact (condition.typed valid.1 level).weaken fun _ holds => holds.1
      · exact .branch level (.inr rfl) fun _ holds => ⟨holds.1, holds.2.2.2.2.2.1⟩
      · exact (thenValue.typed valid.2.1 level).weaken fun _ holds => holds.1
      · exact .jump (level.mono (Nat.le_succ _)) fun _ holds => ⟨holds.1, holds.2.2.2.2.2.2⟩
      · exact (elseValue.typed valid.2.2 level).weaken fun _ holds => holds.1

/-- Storing into a target takes the value that lies on top. -/
theorem Target.typed : (t : Target) → t.Valid ctx true slots → ∀ {before : Location}
    {start depth : Nat}, Level depth regions →
    Typed ctx.pool loop (Guarded regions) (t.store before start) start (view (depth + 1) regions)
      (view depth regions)
  | .name _ _ ref, _, _, _, _, level => ref.store_typed level
  | .attr _ object _, valid, _, _, _, level =>
      .append (object.typed valid.1 (level.mono (Nat.le_succ _))) (.plain 2 level)
  | .index _ object index, valid, _, _, _, level =>
      .append (.append (object.typed valid.1 (level.mono (Nat.le_succ _)))
        (index.typed valid.2 (level.mono (Nat.le_add_right _ 2)))) (.plain 3 level)
  | .other _, _, _, _, _, level => .plain 1 level

theorem typed_exprs : (items : List Expr) → ValidExprs ctx true slots items → ∀ {start depth : Nat},
    Level depth regions →
    Typed ctx.pool loop (Guarded regions) (codeExprs start items) start (view depth regions)
      (view (depth + items.length) regions)
  | [], _, _, _, _ => .nil
  | e :: rest, valid, _, depth, level => by
      rw [List.length_cons, show depth + (rest.length + 1) = depth + 1 + rest.length by omega]
      exact .append (e.typed valid.1 level) (typed_exprs rest valid.2 (level.mono (Nat.le_succ _)))

/-- A keyword argument is two operands, its name and its value. -/
theorem typed_keywords : (items : List (NameConst × Expr)) → ValidKeywords ctx true slots items →
    ∀ {before : Location} {start depth : Nat}, Level depth regions →
    Typed ctx.pool loop (Guarded regions) (codeKeywords before start items) start
      (view depth regions) (view (depth + items.length * 2) regions)
  | [], _, _, _, _, _ => .nil
  | (name, e) :: rest, valid, before, start, depth, level => by
      rw [List.length_cons, show depth + (rest.length + 1) * 2 = depth + 1 + 1 + rest.length * 2 by omega]
      rw [codeKeywords, Nat.add_assoc start, Nat.add_comm 1]
      exact .append (.cons (.plain 0 level) (e.typed valid.2.1 (level.mono (Nat.le_succ _))))
        (typed_keywords rest valid.2.2 (level.mono (Nat.le_add_right _ 2)))

theorem typed_pairs : (items : List (Expr × Expr)) → ValidPairs ctx true slots items →
    ∀ {start depth : Nat}, Level depth regions →
    Typed ctx.pool loop (Guarded regions) (codePairs start items) start
      (view depth regions) (view (depth + items.length * 2) regions)
  | [], _, _, _, _ => .nil
  | (k, v) :: rest, valid, _, depth, level => by
      rw [List.length_cons, show depth + (rest.length + 1) * 2 = depth + 1 + 1 + rest.length * 2 by omega]
      exact .append (.append (k.typed valid.1 level) (v.typed valid.2.1 (level.mono (Nat.le_succ _))))
        (typed_pairs rest valid.2.2 (level.mono (by omega)))

end

/-! ## Statements -/

/-- What code generation knows to be open around a statement is what is open. -/
structure Matches (nest : Nest) (inLoop : Bool) (loop : Option Layout) (l : Layout) : Prop where
  regions : nest.regions = l.regions.length
  loops : inLoop = true → ∃ outer : Layout, loop = some outer ∧ outer.depth = l.depth ∧
    outer.regions <:+ l.regions ∧ nest.loopRegions = some outer.regions.length

/-- In the body of a loop a jump leaves the layout of the loop. -/
theorem Matches.inLoop {nest : Nest} {inside : Bool} {l : Layout} (deeper : Nat)
    (matched : Matches nest inside loop l) :
    Matches nest.inLoop true (some ⟨deeper, l.regions⟩) ⟨deeper, l.regions⟩ where
  regions := matched.regions
  loops _ := ⟨_, rfl, rfl, List.suffix_refl _, congrArg some matched.regions⟩

/-- In a region a jump out of a loop has one region more to close. -/
theorem Matches.inRegion {nest : Nest} {inside : Bool} {l : Layout}
    (matched : Matches nest inside loop l) (r : Region) :
    Matches nest.inRegion inside loop ⟨l.depth, r :: l.regions⟩ where
  regions := congrArg (· + 1) matched.regions
  loops looped := by
    obtain ⟨outer, same, level, suffix, count⟩ := matched.loops looped
    exact ⟨outer, same, level, suffix.trans (List.suffix_cons _ _), count⟩

/-- Where a candidate matches, the value that was compared is still below. -/
theorem codeCandidates_typed : (items : List Expr) → ValidExprs ctx true slots items →
    ∀ {before : Location} {start depth target : Nat}, Level depth regions →
    target = start + (codeCandidates before start items).length + 1 →
    Typed ctx.pool loop
      (fun sketch => Guarded regions sketch ∧ sketch target = some (view (depth + 1) regions))
      (codeCandidates before start items) start (view (depth + 1) regions)
      (view (depth + 1) regions)
  | [], _, _, _, _, _, _, _ => .nil
  | e :: rest, valid, before, start, depth, target, level, behind => by
      have one : Level (depth + 1) regions := level.mono (Nat.le_succ _)
      have two : Level (depth + 2) regions := level.mono (Nat.le_add_right _ 2)
      have there : start + 1 + (e.code (start + 1)).length + 2
          + (codeCandidates e.stamp (start + 1 + (e.code (start + 1)).length + 2) rest).length + 1
            = target := by
        simp only [codeCandidates, List.length_append, List.length_cons, List.length_nil] at behind
        omega
      rw [codeCandidates, there]
      refine .append (v := view (depth + 1) regions) (.append (v := view (depth + 3) regions)
        (.cons (v := view (depth + 2) regions) ?_ ?_) ?_) ?_
      · exact (Typed.plain 1 level).weaken fun _ holds => holds.1
      · exact (e.typed valid.1 two).weaken fun _ holds => holds.1
      · refine .cons (v := view (depth + 2) regions)
          ((Typed.plain 2 one).weaken fun _ holds => holds.1) ?_
        exact .branch one (.inl rfl) fun _ holds => holds
      · rw [show start + (_ : Fragment).length = start + 1 + (e.code (start + 1)).length + 2 by
          simp only [List.length_append, List.length_cons, List.length_nil]; omega]
        exact codeCandidates_typed rest valid.2 level there.symm

/-- The exception is pushed anew for each test, which takes it off again. -/
theorem codeTypeTests_typed : (items : List Expr) → ValidExprs ctx true slots items →
    ∀ {before : Location} {start depth target : Nat}, Level depth regions →
    target = start + (codeTypeTests before start items).length + 2 →
    Typed ctx.pool loop
      (fun sketch => Guarded regions sketch ∧ sketch target = some (view depth regions))
      (codeTypeTests before start items) start (view depth regions) (view depth regions)
  | [], _, _, _, _, _, _, _ => .nil
  | e :: rest, valid, before, start, depth, target, level, behind => by
      have one : Level (depth + 1) regions := level.mono (Nat.le_succ _)
      have there : start + 1 + (e.code (start + 1)).length + 2
          + (codeTypeTests e.stamp (start + 1 + (e.code (start + 1)).length + 2) rest).length + 2
            = target := by
        simp only [codeTypeTests, List.length_append, List.length_cons, List.length_nil] at behind
        omega
      rw [codeTypeTests, there]
      refine .append (v := view depth regions) (.append (v := view (depth + 2) regions)
        (.cons (v := view (depth + 1) regions) ?_ ?_) ?_) ?_
      · exact (Typed.plain 0 level).weaken fun _ holds => holds.1
      · exact (e.typed valid.1 one).weaken fun _ holds => holds.1
      · refine .cons (v := view (depth + 1) regions)
          ((Typed.plain 2 level).weaken fun _ holds => holds.1) ?_
        exact .branch level (.inl rfl) fun _ holds => holds
      · rw [show start + (_ : Fragment).length = start + 1 + (e.code (start + 1)).length + 2 by
          simp only [List.length_append, List.length_cons, List.length_nil]; omega]
        exact codeTypeTests_typed rest valid.2 level there.symm

/-- A handler without types takes every exception. Otherwise what no type matches is raised again.
-/
theorem selectException_typed {types : List Expr} (valid : ValidExprs ctx true slots types)
    {before : Location} {start depth : Nat} (level : Level depth regions) :
    Typed ctx.pool loop (Guarded regions) (selectException before start types) start
      (view depth regions) (view depth regions) := by
  unfold selectException
  split
  · exact .nil
  · refine .row [(_, view depth regions), (_, view depth regions)] rfl ⟨?_, ?_, trivial⟩
    · refine (codeTypeTests_typed types valid level rfl).weaken fun _ holds => ?_
      exact ⟨holds.1, holds.2.2.2⟩
    · refine .weaken (.cons (v := view (depth + 1) regions) (.plain 0 level) (.raising level)) ?_
      exact fun _ holds => holds.1

theorem bindException_typed (binding : Option (String × Ref)) {loc : Location}
    {start depth : Nat} (level : Level depth regions) :
    Typed ctx.pool loop (Guarded regions) (bindException loc binding) start (view depth regions)
      (view depth regions) := by
  rcases binding with _ | ⟨name, ref⟩
  · exact .nil
  · exact .cons (.plain 0 level) (ref.store_typed level)

/-- A jump out of a loop closes the regions that were opened in it. -/
theorem loopJump_typed {nest : Nest} {loc : Location} {start depth : Nat} {slot : Slot}
    (still : slot = .leaveLoop loc ∨ slot = .nextRound loc)
    (matched : Matches nest true loop ⟨depth, regions⟩) (level : Level depth regions) :
    Typed ctx.pool loop (Guarded regions) (loopJump nest loc slot) start (view depth regions)
      (view depth regions) := by
  obtain ⟨⟨_, outer⟩, rfl, rfl, ⟨inner, rfl⟩, count⟩ := matched.loops rfl
  have suffix : outer <:+ inner ++ outer := List.suffix_append _ _
  have opened : nest.regions - outer.length = inner.length := by
    rw [matched.regions, List.length_append, Nat.add_sub_cancel]
  simp only [loopJump, count, opened]
  refine .append (.closings inner level) ?_
  exact (Typed.looping still (level.suffix suffix)).weaken fun _ guarded => guarded.suffix suffix

theorem loopTest_length (condition : Option Expr) (start a b : Nat) :
    (loopTest start a condition).length = (loopTest start b condition).length := by
  cases condition with
  | none => rfl
  | some e => simp only [loopTest, List.length_append, List.length_singleton]

/-- A loop without a condition has no test, so nothing leads to its end. -/
theorem loopTest_typed {condition : Option Expr} (valid : ∀ e ∈ condition, e.Valid ctx true slots)
    {start loopEnd depth : Nat} (level : Level depth regions) :
    Typed ctx.pool loop
      (fun sketch => Guarded regions sketch ∧ sketch loopEnd = some (view depth regions))
      (loopTest start loopEnd condition) start (view depth regions) (view depth regions) := by
  cases condition with
  | none => exact .nil
  | some e =>
      refine .append ((e.typed (valid e rfl) level).weaken fun _ holds => holds.1) ?_
      exact .branch level (.inr rfl) fun _ holds => holds

theorem evaluate_typed {value : Option Expr} (valid : ∀ e ∈ value, e.Valid ctx true slots)
    {start depth : Nat} (level : Level depth regions) :
    Typed ctx.pool loop (Guarded regions) (evaluate start value) start (view depth regions)
      (view depth regions) := by
  cases value with
  | none => exact .nil
  | some e => exact .append (e.typed (valid e rfl) level) (.plain 1 level)

mutual

/-- The code of a statement leaves the operands and the regions as they were. The induction is on
the statement. -/
theorem Stmt.typed : (s : Stmt) → ∀ {inLoop : Bool} {nest : Nest} {loop : Option Layout}
    {regions : List Region} {start depth : Nat}, s.Valid ctx true slots inLoop →
    Matches nest inLoop loop ⟨depth, regions⟩ → Level depth regions →
    Typed ctx.pool loop (Guarded regions) (s.code nest start) start (view depth regions)
      (view depth regions)
  | .expr _ value, _, _, _, _, _, _, valid, _, level =>
      .append (value.typed valid level) (.plain 1 level)
  | .block _ body, _, _, _, _, _, _, valid, matched, level => typed_stmts body valid matched level
  | .ifElse _ condition body none, _, _, _, regions, _, depth, valid, matched, level => by
      refine .row [(_, view depth regions), (_, view (depth + 1) regions),
        (_, view depth regions)] rfl ⟨?_, ?_, ?_, trivial⟩
      · exact (condition.typed valid.1 level).weaken fun _ holds => holds.1
      · exact .branch level (.inr rfl) fun _ holds => ⟨holds.1, holds.2.2.2.2⟩
      · exact (body.typed valid.2.1 matched level).weaken fun _ holds => holds.1
  | .ifElse _ condition body (some other), _, _, _, regions, _, depth, valid, matched, level => by
      refine .row [(_, view depth regions), (_, view (depth + 1) regions),
        (_, view depth regions), (_, view depth regions), (_, view depth regions)] rfl
        ⟨?_, ?_, ?_, ?_, ?_, trivial⟩
      · exact (condition.typed valid.1 level).weaken fun _ holds => holds.1
      · exact .branch level (.inr rfl) fun _ holds => ⟨holds.1, holds.2.2.2.2.2.1⟩
      · exact (body.typed valid.2.1 matched level).weaken fun _ holds => holds.1
      · exact .jump level fun _ holds => ⟨holds.1, holds.2.2.2.2.2.2⟩
      · exact (other.typed valid.2.2 matched level).weaken fun _ holds => holds.1
  | .whileLoop _ condition body, _, nest, _, regions, start, depth, valid, matched, level => by
      have looped := matched.inLoop depth
      refine .row [(_, view depth regions), (_, view (depth + 1) regions),
        (Fragment.close _ _ _, view depth regions), (_, view depth regions)] rfl
        ⟨?_, ?_, ?_, ?_, trivial⟩
      · exact (condition.typed valid.1 level).weaken fun _ holds => holds.1
      · refine .branch level (.inr rfl) fun _ ⟨guarded, _, _, _, _, behind⟩ => ⟨guarded, ?_⟩
        rwa [Fragment.length_close] at behind
      · refine (body.typed valid.2 looped level).close
          fun _ ⟨guarded, top, _, _, _, behind⟩ => ⟨guarded, top, ?_⟩
        rwa [Fragment.length_close] at behind
      · exact .jump level fun _ holds => ⟨holds.1, holds.2.1⟩
  | .doWhile _ body condition, _, nest, _, regions, start, depth, valid, matched, level => by
      have looped := matched.inLoop depth
      refine .row [(Fragment.close _ _ _, view depth regions), (_, view depth regions),
        (_, view (depth + 1) regions)] rfl ⟨?_, ?_, ?_, trivial⟩
      · refine (body.typed valid.1 looped level).close
          fun _ ⟨guarded, _, test, _, behind⟩ => ⟨guarded, ?_, ?_⟩
        · rwa [Fragment.length_close] at test
        · rwa [Fragment.length_close] at behind
      · rw [Fragment.length_close]
        exact (condition.typed valid.2 level).weaken fun _ holds => holds.1
      · exact .branch level (.inl rfl) fun _ holds => ⟨holds.1, holds.2.1⟩
  | .forLoop _ first condition step body, _, nest, _, regions, start, depth, valid, matched, level => by
      have looped := matched.inLoop depth
      obtain ⟨size, sized⟩ : ∃ size, ∀ target, (loopTest (start + (codeOption nest start first).length)
          target condition).length = size := ⟨_, fun target => loopTest_length _ _ target 0⟩
      simp only [Stmt.code, sized]
      refine .row [(_, view depth regions), (loopTest _ _ _, view depth regions),
        (Fragment.close _ _ _, view depth regions), (evaluate _ _, view depth regions),
        (_, view depth regions)] rfl ⟨?_, ?_, ?_, ?_, ?_, trivial⟩
      · exact (typed_option first valid.1 matched level).weaken fun _ holds => holds.1
      · refine (loopTest_typed valid.2.1 level).weaken
          fun _ ⟨guarded, _, _, _, _, _, behind⟩ => ⟨guarded, ?_⟩
        rwa [Fragment.length_close, sized] at behind
      · rw [sized]
        refine (body.typed valid.2.2.1 looped level).close
          fun _ ⟨guarded, _, _, _, next, _, behind⟩ => ⟨guarded, ?_, ?_⟩
        · rwa [Fragment.length_close, sized] at next
        · rwa [Fragment.length_close, sized] at behind
      · rw [Fragment.length_close, sized]
        exact (evaluate_typed valid.2.2.2 level).weaken fun _ holds => holds.1
      · exact .jump level fun _ holds => ⟨holds.1, holds.2.2.1⟩
  | .foreach _ _ ref iterable body, _, nest, _, regions, start, depth, valid, matched, level => by
      have one : Level (depth + 1) regions := level.mono (Nat.le_succ _)
      have looped := matched.inLoop (depth + 1)
      refine .row [(_, view depth regions), (_, view (depth + 1) regions),
        (_, view (depth + 1) regions), (Fragment.close _ _ _, view (depth + 1) regions),
        (_, view (depth + 1) regions), (_, view (depth + 1) regions)] rfl
        ⟨?_, ?_, ?_, ?_, ?_, ?_, trivial⟩
      · exact (iterable.typed valid.1 level).weaken fun _ holds => holds.1
      · refine .weaken (.cons (v := view (depth + 1) regions) (.plain 1 level)
          (.cons (v := view (depth + 2) regions) (.plain 1 level) (.plain 1 one)))
          fun _ holds => holds.1
      · refine .cons (v := view (depth + 2) regions) ?_ (.cons (v := view (depth + 2) regions) ?_
          (.cons (v := view (depth + 1) regions) ?_ (.weaken (.cons (v := view (depth + 2) regions)
            (.plain 1 level) (.cons (v := view (depth + 2) regions) (.plain 1 one)
              (ref.store_typed one))) fun _ holds => holds.1)))
        · exact (Typed.plain 1 level).weaken fun _ holds => holds.1
        · exact (Typed.plain 1 one).weaken fun _ holds => holds.1
        · refine .branch one (.inr rfl)
            fun _ ⟨guarded, _, _, _, _, _, behind, _⟩ => ⟨guarded, ?_⟩
          rwa [Fragment.length_close] at behind
      · refine (body.typed valid.2.2 looped one).close
          fun _ ⟨guarded, _, _, top, _, _, behind, _⟩ => ⟨guarded, top, ?_⟩
        rwa [Fragment.length_close] at behind
      · exact .jump one fun _ holds => ⟨holds.1, holds.2.2.2.1⟩
      · exact (Typed.plain 1 level).weaken fun _ holds => holds.1
  | .given _ value cases otherwise, _, nest, _, regions, start, depth, valid, matched, level => by
      exact .append (value.typed valid.1 level) (typed_cases cases valid.2.1
        (fun _ => typed_option otherwise valid.2.2 matched level) matched level)
  | .breakLoop _, _, _, _, _, _, _, valid, matched, level => by
      cases valid rfl
      exact loopJump_typed (.inl rfl) matched level
  | .continueLoop _, _, _, _, _, _, _, valid, matched, level => by
      cases valid rfl
      exact loopJump_typed (.inr rfl) matched level
  | .ret loc value, _, nest, loop, regions, start, depth, valid, matched, level => by
      have closed : ∀ {loc : Location} {start : Nat}, Typed ctx.pool loop (Guarded regions)
          (List.replicate regions.length (.of loc .popExceptionHandler)) start
          (view (depth + 1) regions) (view (depth + 1) []) := by
        have unwinding := @Typed.closings ctx.pool loop
        intro loc start
        have one : Level (depth + 1) (regions ++ []) := by
          rw [List.append_nil]
          exact level.mono (Nat.le_succ _)
        have typed := @unwinding loc start (depth + 1) regions [] one
        rwa [List.append_nil] at typed
      rw [Stmt.code, matched.regions]
      refine .append (.append ?_ closed) .returning
      cases value with
      | none => exact .plain 0 level
      | some e => exact e.typed (valid e rfl) level
  | .raise _ value, _, _, _, _, _, _, valid, _, level =>
      .append (value.typed valid level) (.raising level)
  | .tryExcept _ body binding types handler, _, nest, _, regions, start, depth, valid, matched,
      level => by
      let region : Region := ⟨start + 1 + (body.code nest.inRegion (start + 1)).length + 2, depth⟩
      have inside : Level depth (region :: regions) :=
        List.forall_mem_cons.2 ⟨Nat.le_refl _, level⟩
      refine .row [(_, view depth regions), (_, view depth (region :: regions)),
        (_, view depth (region :: regions)), (_, view depth regions),
        (_, view depth regions)] rfl ⟨?_, ?_, ?_, ?_, ?_, trivial⟩
      · exact (Typed.opening level).weaken fun _ holds => holds.1
      · refine (body.typed valid.1 (matched.inRegion _) inside).weaken fun _ holds => ?_
        exact holds.1.cons holds.2.2.2.2.1
      · refine .cons ((Typed.closing inside).weaken fun _ holds => holds.1.cons holds.2.2.2.2.1) ?_
        exact .jump level fun _ holds => ⟨holds.1, holds.2.2.2.2.2.2⟩
      · refine .weaken (.append (selectException_typed valid.2.1 level)
          (bindException_typed binding level)) fun _ holds => holds.1
      · exact (handler.typed valid.2.2.2 matched level).weaken fun _ holds => holds.1
  | .function _ _ method const ref, _, _, _, _, _, _, valid, _, level => by
      have known : Top.Holds ctx.pool const (.method method) := valid.1.held
      exact .cons (.known level known) (.cons (.closure level) (ref.store_typed level))
  | .other _, _, _, _, _, _, _, valid, _, _ => valid.elim

theorem typed_option : (s : Option Stmt) → ∀ {inLoop : Bool} {nest : Nest}
    {loop : Option Layout} {regions : List Region} {start depth : Nat},
    ValidOption ctx true slots inLoop s → Matches nest inLoop loop ⟨depth, regions⟩ →
    Level depth regions →
    Typed ctx.pool loop (Guarded regions) (codeOption nest start s) start (view depth regions)
      (view depth regions)
  | none, _, _, _, _, _, _, _, _, _ => .nil
  | some s, _, _, _, _, _, _, valid, matched, level => s.typed valid matched level

theorem typed_stmts : (body : List Stmt) → ∀ {inLoop : Bool} {nest : Nest} {loop : Option Layout}
    {regions : List Region} {start depth : Nat}, ValidStmts ctx true slots inLoop body →
    Matches nest inLoop loop ⟨depth, regions⟩ → Level depth regions →
    Typed ctx.pool loop (Guarded regions) (codeStmts nest start body) start (view depth regions)
      (view depth regions)
  | [], _, _, _, _, _, _, _, _, _ => .nil
  | s :: rest, _, _, _, _, _, _, valid, matched, level =>
      .append (s.typed valid.1 matched level) (typed_stmts rest valid.2 matched level)

/-- Each case drops the value that is compared before its body runs. -/
theorem typed_cases : (cases : List (List Expr × Stmt)) → ∀ {inLoop : Bool} {nest : Nest}
    {loop : Option Layout} {regions : List Region} {fallback : Nat → Fragment}
    {before : Location} {start depth : Nat}, ValidCases ctx true slots inLoop cases →
    (∀ start, Typed ctx.pool loop (Guarded regions) (fallback start) start (view depth regions)
      (view depth regions)) →
    Matches nest inLoop loop ⟨depth, regions⟩ → Level depth regions →
    Typed ctx.pool loop (Guarded regions) (codeCases nest fallback before start cases) start
      (view (depth + 1) regions) (view depth regions)
  | [], _, _, _, _, _, _, start, _, _, otherwise, _, level =>
      .cons (.plain 1 level) (otherwise (start + 1))
  | (values, body) :: rest, _, nest, _, regions, fallback, before, start, depth, valid, otherwise,
      matched, level => by
      have one : Level (depth + 1) regions := level.mono (Nat.le_succ _)
      refine .row [(_, view (depth + 1) regions), (_, view (depth + 1) regions),
        (_, view (depth + 1) regions), (_, view depth regions), (_, view depth regions),
        (_, view (depth + 1) regions)] rfl ⟨?_, ?_, ?_, ?_, ?_, ?_, trivial⟩
      · refine (codeCandidates_typed values valid.1 level rfl).weaken fun _ holds => ?_
        exact ⟨holds.1, holds.2.2.2.1⟩
      · exact .jump one fun _ holds => ⟨holds.1, holds.2.2.2.2.2.2.1⟩
      · exact (Typed.plain 1 level).weaken fun _ holds => holds.1
      · exact (body.typed valid.2.1 matched level).weaken fun _ holds => holds.1
      · exact .jump level fun _ holds => ⟨holds.1, holds.2.2.2.2.2.2.2⟩
      · exact (typed_cases rest valid.2.2 otherwise matched level).weaken fun _ holds => holds.1

end

/-! ## Whole bodies -/

/-- Fields are set on the class that is being prepared. -/
theorem codeFields_typed : (items : List Field) → (∀ field ∈ items, field.Valid ctx true slots) →
    ∀ {start depth : Nat}, Level depth regions →
    Typed ctx.pool loop (Guarded regions) (codeFields start items) start (view depth regions)
      (view depth regions)
  | [], _, _, _, _ => .nil
  | field :: rest, valid, _, depth, level => by
      obtain ⟨first, others⟩ := List.forall_mem_cons.1 valid
      exact .append (.append (field.value.typed first.1 level)
        (.cons (v := view (depth + 2) regions) (.plain 1 level) (.plain 2 level)))
        (codeFields_typed rest others level)

theorem Root.typed {s : Root} (valid : s.Valid ctx true) {start depth : Nat}
    (level : Level depth regions) :
    Typed ctx.pool loop (Guarded regions) (s.code start) start (view depth regions)
      (view depth regions) := by
  cases s with
  | mark _ => exact .nil
  | expr _ value => exact .append (value.typed valid level) (.plain 1 level)
  | use decl module names =>
      rw [Root.code]
      split
      · exact .plain 0 level
      · next chosen =>
        split
        · exact .plain 0 level
        · next named =>
          have listed : Top.Holds ctx.pool names .names :=
            ⟨_, valid.2 (by simpa using chosen) (by simpa using named)⟩
          exact .cons (.known level listed) (.cons (.importing level) (.plain 0 level))

/-- A module runs its statements one after the other with nothing on the stack. -/
theorem codeRoots_typed : (unit : List Root) → (∀ s ∈ unit, s.Valid ctx true) →
    ∀ {start depth : Nat}, Level depth regions →
    Typed ctx.pool loop (Guarded regions) (codeRoots start unit) start (view depth regions)
      (view depth regions)
  | [], _, _, _, _ => .nil
  | s :: rest, valid, _, _, level => by
      obtain ⟨first, others⟩ := List.forall_mem_cons.1 valid
      exact .append (s.typed first level) (codeRoots_typed rest others level)

/-- The code of a valid unit is that of a whole body. -/
theorem codeUnit_typed {unit : List Root} (valid : ∀ s ∈ unit, s.Valid ctx true) :
    TypedBody ctx.pool (codeUnit unit) :=
  ⟨codeRoots 0 unit, _, rfl, codeRoots_typed unit valid (level_nil 0)⟩

/-- The code of a valid method is that of a whole body. -/
theorem Body.typed {b : Body} (valid : b.Valid ctx true slots) {loc : Location} :
    TypedBody ctx.pool (b.code loc) := by
  cases b with
  | statements bases body =>
      have outside : Matches {} false none ⟨0, []⟩ := ⟨rfl, fun looped => nomatch looped⟩
      have named : ∀ path ∈ bases, path ≠ [] := fun path member => (valid.1 path member).1
      refine ⟨callBases loc bases ++ codeStmts {} (callBases loc bases).length body, _, rfl, ?_⟩
      refine .append (callBases_typed (level_nil 0) named) ?_
      rw [Nat.zero_add]
      exact typed_stmts body valid.2 outside (level_nil 0)
  | fields items => exact ⟨codeFields 0 items, _, rfl, codeFields_typed items valid (level_nil 0)⟩

end ScriptMachine.Linked
