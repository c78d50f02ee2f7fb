import ScriptMachine.Proofs.Code.Validity

/-!
Operands of code. The code of a valid linked tree refers only to constants, slots and operators
that exist, and loads a method in one of two ways: alone, if the scope of the method is a
boundary, or with a `buildClosure` right behind it, if the method shares the slots of the
function around it.
-/

namespace ScriptMachine

open Linked (Context Ref BasePath)

/-- The operand of an instruction is what the machine takes it for. A method is loaded in ways
of its own, so `loadConst` here loads something else. -/
def Instruction.Refers (ctx : Context) (slots : Nat) (i : Instruction) : Prop :=
  match i.op with
  | .loadConst => ∃ c, ctx.pool[i.arg]? = some c ∧ ∀ k, c ≠ .method k
  | .loadGlobal | .storeGlobal | .loadAttribute | .storeAttribute | .importModule | .importFrom
  | .importAll => ∃ name, ctx.pool[i.arg]? = some (.str name)
  | .loadLocal | .storeLocal => i.arg < slots
  | .binOp => ∃ op, BinaryOp.ofTag? i.arg = some op
  | .unaryOp => ∃ op, UnaryOp.ofTag? i.arg = some op
  | .buildClosure => False
  | _ => True

/-- The operand of a slot is what the machine takes it for. -/
def Slot.Refers (ctx : Context) (slots : Nat) : Slot → Prop
  | .fixed i => i.Refers ctx slots
  | .leaveLoop _ | .nextRound _ => True

/-- Code with sound operands, in which methods are loaded as their scopes demand. -/
inductive Tidy (ctx : Context) (slots : Nat) : Fragment → Prop where
  | nil : Tidy ctx slots []
  | plain {slot : Slot} {rest : Fragment} :
      slot.Refers ctx slots → Tidy ctx slots rest → Tidy ctx slots (slot :: rest)
  | method {loc : Location} {decl : FuncDecl} {method const : Nat} {rest : Fragment} :
      ctx.Nested slots decl method const false → Tidy ctx slots rest →
      Tidy ctx slots (.of loc .loadConst const :: rest)
  | closure {loc loc' : Location} {decl : FuncDecl} {method const : Nat} {rest : Fragment} :
      ctx.Nested slots decl method const true → Tidy ctx slots rest →
      Tidy ctx slots (.of loc .loadConst const :: .of loc' .buildClosure :: rest)

variable {ctx : Context} {accepted : Bool} {slots : Nat}

namespace Tidy

theorem append {first second : Fragment} (left : Tidy ctx slots first)
    (right : Tidy ctx slots second) : Tidy ctx slots (first ++ second) := by
  induction left with
  | nil => exact right
  | plain refers _ ih => exact .plain refers ih
  | method nested _ ih => exact .method nested ih
  | closure nested _ ih => exact .closure nested ih

theorem one {slot : Slot} (refers : slot.Refers ctx slots) : Tidy ctx slots [slot] :=
  .plain refers .nil

theorem of_forall {code : Fragment} (each : ∀ slot ∈ code, slot.Refers ctx slots) :
    Tidy ctx slots code := by
  induction code with
  | nil => exact .nil
  | cons slot rest ih =>
      obtain ⟨first, others⟩ := List.forall_mem_cons.1 each
      exact .plain first (ih others)

/-- The jumps out of a loop refer to no constant, so filling them in changes nothing. -/
theorem close {code : Fragment} (tidy : Tidy ctx slots code) (roundStart loopEnd : Nat) :
    Tidy ctx slots (code.close roundStart loopEnd) := by
  induction tidy with
  | nil => exact .nil
  | @plain slot rest refers _ ih =>
      refine .plain ?_ ih
      cases slot with
      | fixed i => exact refers
      | leaveLoop loc | nextRound loc => trivial
  | method nested _ ih => exact .method nested ih
  | closure nested _ ih => exact .closure nested ih

end Tidy

namespace Linked

/-- A reference has a slot of the method or a name among the constants. -/
theorem Ref.load_tidy {ref : Ref} {ident : String} {loc : Location}
    (valid : ref.Valid ctx.pool slots ident) : Tidy ctx slots [ref.load loc] := by
  cases ref with
  | slot index => exact .one valid
  | global const => exact .one ⟨ident, valid⟩

theorem Ref.store_tidy {ref : Ref} {ident : String} {loc : Location}
    (valid : ref.Valid ctx.pool slots ident) : Tidy ctx slots [ref.store loc] := by
  cases ref with
  | slot index => exact .one valid
  | global const => exact .one ⟨ident, valid⟩

/-- The names on the path of a base are constants. -/
theorem loadBase_tidy {path : BasePath} {loc : Location} (valid : path.Valid ctx.pool) :
    Tidy ctx slots (loadBase loc path) := by
  cases path with
  | nil => exact .nil
  | cons first rest =>
      obtain ⟨named, others⟩ := List.forall_mem_cons.1 valid.2
      refine .plain ⟨_, named⟩ (.of_forall fun slot member => ?_)
      obtain ⟨segment, inside, rfl⟩ := List.mem_map.1 member
      exact ⟨_, others segment inside⟩

theorem callBases_tidy {bases : List BasePath} {loc : Location}
    (valid : ∀ path ∈ bases, path.Valid ctx.pool) : Tidy ctx slots (callBases loc bases) := by
  induction bases with
  | nil => exact .nil
  | cons base rest ih =>
      obtain ⟨first, others⟩ := List.forall_mem_cons.1 valid
      exact .append (.append (loadBase_tidy first) (.one trivial)) (ih others)

theorem packKeywords_tidy {count : Nat} {loc : Location} :
    Tidy ctx slots (packKeywords loc count) := by
  unfold packKeywords
  split
  · exact .nil
  · exact .one trivial

/-- A function in a function is a constant. -/
theorem Context.Nested.tidy {decl : FuncDecl} {method const : Nat} {closes : Bool} {loc : Location}
    (nested : ctx.Nested slots decl method const closes) :
    Tidy ctx slots (.of loc .loadConst const :: if closes then [.of loc .buildClosure] else []) := by
  cases closes with
  | false => exact .method nested .nil
  | true => exact .closure nested .nil

mutual

/-- All that the code of an expression refers to is there. The induction is on the expression. -/
theorem Expr.tidy : (e : Expr) → e.Valid ctx accepted slots → ∀ {start : Nat},
    Tidy ctx slots (e.code start)
  | .null _, _, _ => .one trivial
  | .bool _ true, _, _ => .one trivial
  | .bool _ false, _, _ => .one trivial
  | .int _ _ _, valid, _ => .one ⟨_, valid, nofun⟩
  | .float _ _ _, valid, _ => .one ⟨_, valid, nofun⟩
  | .str _ _, valid, _ => .one ⟨_, valid, nofun⟩
  | .name _ _ _, valid, _ => Ref.load_tidy valid
  | .self _, _, _ => .one trivial
  | .attr _ target _, valid, _ => .append (target.tidy valid.1) (.one ⟨_, valid.2⟩)
  | .index _ target index, valid, _ =>
      .append (.append (target.tidy valid.1) (index.tidy valid.2)) (.one trivial)
  | .call _ callee args keywords, valid, _ =>
      .append (.append (.append (.append (tidy_exprs args valid.1) (tidy_keywords keywords valid.2.1))
        packKeywords_tidy) (callee.tidy valid.2.2)) (.one trivial)
  | .superCall _ args none, valid, _ => tidy_exprs args valid.1
  | .superCall _ args (some path), valid, _ =>
      .append (.append (tidy_exprs args valid.1) (loadBase_tidy (valid.2.1 path rfl)))
        (.plain trivial (.one trivial))
  | .binary _ op left right, valid, start => by
      have skipping : ∀ {skip : Opcode} {target : Nat}, skip = .jumpIfFalse ∨ skip = .jumpIfTrue →
          Tidy ctx slots (left.code start ++ [.of left.stamp .dup, .of left.stamp skip target,
            .of left.stamp .pop] ++ right.code (start + (left.code start).length + 3)) := by
        intro skip target conditional
        refine .append (.append (left.tidy valid.1) (.plain trivial (.plain ?_ (.one trivial))))
          (right.tidy valid.2)
        rcases conditional with rfl | rfl <;> trivial
      have strict : ∀ {loc : Location}, Tidy ctx slots (left.code start
          ++ right.code (start + (left.code start).length) ++ [.of loc .binOp op.tag]) :=
        .append (.append (left.tidy valid.1) (right.tidy valid.2)) (.one ⟨_, BinaryOp.ofTag?_tag op⟩)
      cases op with
      | boolAnd => exact skipping (.inl rfl)
      | boolOr => exact skipping (.inr rfl)
      | _ => exact strict
  | .unary _ op operand, valid, _ =>
      .append (operand.tidy valid) (.one ⟨_, UnaryOp.ofTag?_tag op⟩)
  | .assign _ target value, valid, _ =>
      .append (.append (value.tidy valid.1) (.one trivial)) (target.tidy valid.2)
  | .update _ op old value target, valid, _ =>
      .append (.append (.append (old.tidy valid.1) (value.tidy valid.2.1))
        (.plain ⟨_, BinaryOp.ofTag?_tag op⟩ (.one trivial))) (target.tidy valid.2.2)
  | .list _ items, valid, _ => .append (tidy_exprs items valid) (.one trivial)
  | .tuple _ items, valid, _ => .append (tidy_exprs items valid) (.one trivial)
  | .hash _ pairs, valid, _ => .append (tidy_pairs pairs valid) (.one trivial)
  | .lambda _ _ _ _ _, valid, _ => valid.tidy
  | .isType _ value type, valid, _ =>
      .append (.append (value.tidy valid.1) (type.tidy valid.2)) (.one trivial)
  | .asType _ value type, valid, _ =>
      .append (.append (value.tidy valid.1) (type.tidy valid.2)) (.one trivial)
  | .coalesce _ left right, valid, _ =>
      .append (.append (left.tidy valid.1) (.one trivial)) (right.tidy valid.2)
  | .ternary _ condition thenValue elseValue, valid, _ =>
      .append (.append (.append (.append (condition.tidy valid.1) (.one trivial))
        (thenValue.tidy valid.2.1)) (.one trivial)) (elseValue.tidy valid.2.2)

/-- A target refers to a variable or to the name of an attribute. -/
theorem Target.tidy : (t : Target) → t.Valid ctx accepted slots → ∀ {before : Location}
    {start : Nat}, Tidy ctx slots (t.store before start)
  | .name _ _ _, valid, _, _ => Ref.store_tidy valid
  | .attr _ object _, valid, _, _ => .append (object.tidy valid.1) (.one ⟨_, valid.2⟩)
  | .index _ object index, valid, _, _ =>
      .append (.append (object.tidy valid.1) (index.tidy valid.2)) (.one trivial)
  | .other _, valid, _, _ => valid.elim

theorem tidy_exprs : (items : List Expr) → ValidExprs ctx accepted slots items →
    ∀ {start : Nat}, Tidy ctx slots (codeExprs start items)
  | [], _, _ => .nil
  | e :: rest, valid, _ => .append (e.tidy valid.1) (tidy_exprs rest valid.2)

theorem tidy_keywords : (items : List (NameConst × Expr)) → ValidKeywords ctx accepted slots items →
    ∀ {before : Location} {start : Nat}, Tidy ctx slots (codeKeywords before start items)
  | [], _, _, _ => .nil
  | (_, e) :: rest, valid, _, _ =>
      .append (.plain ⟨_, valid.1, nofun⟩ (e.tidy valid.2.1)) (tidy_keywords rest valid.2.2)

theorem tidy_pairs : (items : List (Expr × Expr)) → ValidPairs ctx accepted slots items →
    ∀ {start : Nat}, Tidy ctx slots (codePairs start items)
  | [], _, _ => .nil
  | (k, v) :: rest, valid, _ =>
      .append (.append (k.tidy valid.1) (v.tidy valid.2.1)) (tidy_pairs rest valid.2.2)

end

theorem codeCandidates_tidy : (items : List Expr) → ValidExprs ctx accepted slots items →
    ∀ {before : Location} {start : Nat}, Tidy ctx slots (codeCandidates before start items)
  | [], _, _, _ => .nil
  | e :: rest, valid, _, _ =>
      .append (.append (.plain trivial (e.tidy valid.1))
        (.plain ⟨_, BinaryOp.ofTag?_tag .equals⟩ (.one trivial))) (codeCandidates_tidy rest valid.2)

theorem codeTypeTests_tidy : (items : List Expr) → ValidExprs ctx accepted slots items →
    ∀ {before : Location} {start : Nat}, Tidy ctx slots (codeTypeTests before start items)
  | [], _, _, _ => .nil
  | e :: rest, valid, _, _ =>
      .append (.append (.plain trivial (e.tidy valid.1)) (.plain trivial (.one trivial)))
        (codeTypeTests_tidy rest valid.2)

/-- Testing for types refers to what the types refer to. -/
theorem selectException_tidy {types : List Expr} (valid : ValidExprs ctx accepted slots types)
    {before : Location} {start : Nat} : Tidy ctx slots (selectException before start types) := by
  unfold selectException
  split
  · exact .nil
  · exact .append (codeTypeTests_tidy types valid) (.plain trivial (.one trivial))

theorem bindException_tidy {binding : Option (String × Ref)} {loc : Location}
    (valid : ∀ b ∈ binding, b.2.Valid ctx.pool slots b.1) :
    Tidy ctx slots (bindException loc binding) := by
  rcases binding with _ | ⟨name, ref⟩
  · exact .nil
  · exact .plain trivial (Ref.store_tidy (valid _ rfl))

theorem closings_tidy {loc : Location} {count : Nat} :
    Tidy ctx slots (List.replicate count (.of loc .popExceptionHandler)) :=
  .of_forall fun _ member => (List.eq_of_mem_replicate member).symm ▸ trivial

/-- Closing regions refers to nothing. -/
theorem loopJump_tidy {nest : Nest} {loc : Location} {slot : Slot}
    (refers : slot.Refers ctx slots) : Tidy ctx slots (loopJump nest loc slot) := by
  unfold loopJump
  split
  · exact .nil
  · exact .append closings_tidy (.one refers)

theorem loopTest_tidy {condition : Option Expr} (valid : ∀ e ∈ condition, e.Valid ctx accepted slots)
    {start loopEnd : Nat} : Tidy ctx slots (loopTest start loopEnd condition) := by
  cases condition with
  | none => exact .nil
  | some e => exact .append (e.tidy (valid e rfl)) (.one trivial)

theorem evaluate_tidy {value : Option Expr} (valid : ∀ e ∈ value, e.Valid ctx accepted slots)
    {start : Nat} : Tidy ctx slots (evaluate start value) := by
  cases value with
  | none => exact .nil
  | some e => exact .append (e.tidy (valid e rfl)) (.one trivial)

mutual

/-- All that the code of a statement refers to is there. The induction is on the statement. -/
theorem Stmt.tidy : (s : Stmt) → ∀ {inLoop : Bool} {nest : Nest} {start : Nat},
    s.Valid ctx accepted slots inLoop → Tidy ctx slots (s.code nest start)
  | .expr _ value, _, _, _, valid => .append (value.tidy valid) (.one trivial)
  | .block _ body, _, _, _, valid => tidy_stmts body valid
  | .ifElse _ condition body none, _, _, _, valid =>
      .append (.append (condition.tidy valid.1) (.one trivial)) (body.tidy valid.2.1)
  | .ifElse _ condition body (some other), _, _, _, valid =>
      .append (.append (.append (.append (condition.tidy valid.1) (.one trivial))
        (body.tidy valid.2.1)) (.one trivial)) (other.tidy valid.2.2)
  | .whileLoop _ condition body, _, _, _, valid =>
      .append (.append (.append (condition.tidy valid.1) (.one trivial))
        (.close (body.tidy valid.2) _ _)) (.one trivial)
  | .doWhile _ body condition, _, _, _, valid =>
      .append (.append (.close (body.tidy valid.1) _ _) (condition.tidy valid.2)) (.one trivial)
  | .forLoop _ first _ _ body, _, _, _, valid =>
      .append (.append (.append (.append (tidy_option first valid.1) (loopTest_tidy valid.2.1))
        (.close (body.tidy valid.2.2.1) _ _)) (evaluate_tidy valid.2.2.2)) (.one trivial)
  | .foreach _ _ _ iterable body, _, _, _, valid =>
      .append (.append (.append (.append (.append (iterable.tidy valid.1)
        (.plain trivial (.plain trivial (.one trivial))))
        (.plain trivial (.plain trivial (.plain trivial (.plain trivial (.plain trivial
          (Ref.store_tidy valid.2.1)))))))
        (.close (body.tidy valid.2.2) _ _)) (.one trivial)) (.one trivial)
  | .given _ value cases otherwise, _, _, _, valid =>
      .append (value.tidy valid.1)
        (tidy_cases cases valid.2.1 fun _ => tidy_option otherwise valid.2.2)
  | .breakLoop _, _, _, _, _ => loopJump_tidy trivial
  | .continueLoop _, _, _, _, _ => loopJump_tidy trivial
  | .ret _ none, _, _, _, _ => .append (.append (.one trivial) closings_tidy) (.one trivial)
  | .ret _ (some e), _, _, _, valid =>
      .append (.append (e.tidy (valid e rfl)) closings_tidy) (.one trivial)
  | .raise _ value, _, _, _, valid => .append (value.tidy valid) (.one trivial)
  | .tryExcept _ body _ _ handler, _, _, _, valid =>
      .append (.append (.append (.append (.one trivial) (body.tidy valid.1))
        (.plain trivial (.one trivial)))
        (.append (selectException_tidy valid.2.1) (bindException_tidy valid.2.2.1)))
        (handler.tidy valid.2.2.2)
  | .function _ _ _ _ _, _, _, _, valid => .closure valid.1 (Ref.store_tidy valid.2)
  | .other _, _, _, _, valid => valid.elim

theorem tidy_option : (s : Option Stmt) → ∀ {inLoop : Bool} {nest : Nest} {start : Nat},
    ValidOption ctx accepted slots inLoop s → Tidy ctx slots (codeOption nest start s)
  | none, _, _, _, _ => .nil
  | some s, _, _, _, valid => s.tidy valid

theorem tidy_stmts : (body : List Stmt) → ∀ {inLoop : Bool} {nest : Nest} {start : Nat},
    ValidStmts ctx accepted slots inLoop body → Tidy ctx slots (codeStmts nest start body)
  | [], _, _, _, _ => .nil
  | s :: rest, _, _, _, valid => .append (s.tidy valid.1) (tidy_stmts rest valid.2)

/-- The code that runs when no case does may be anything tidy. -/
theorem tidy_cases : (cases : List (List Expr × Stmt)) → ∀ {inLoop : Bool} {nest : Nest}
    {fallback : Nat → Fragment} {before : Location} {start : Nat},
    ValidCases ctx accepted slots inLoop cases → (∀ start, Tidy ctx slots (fallback start)) →
    Tidy ctx slots (codeCases nest fallback before start cases)
  | [], _, _, _, _, _, _, otherwise => .plain trivial (otherwise _)
  | (values, body) :: rest, _, _, _, _, _, valid, otherwise =>
      .append (.append (.append (.append (.append (codeCandidates_tidy values valid.1) (.one trivial))
        (.one trivial)) (body.tidy valid.2.1)) (.one trivial)) (tidy_cases rest valid.2.2 otherwise)

end

theorem codeFields_tidy : (items : List Field) → (∀ field ∈ items, field.Valid ctx accepted slots) →
    ∀ {start : Nat}, Tidy ctx slots (codeFields start items)
  | [], _, _ => .nil
  | field :: rest, valid, _ => by
      obtain ⟨first, others⟩ := List.forall_mem_cons.1 valid
      exact .append (.append (field.value.tidy first.1) (.plain trivial (.one ⟨_, first.2⟩)))
        (codeFields_tidy rest others)

theorem Root.tidy {s : Root} (valid : s.Valid ctx accepted) {start : Nat} :
    Tidy ctx 0 (s.code start) := by
  cases s with
  | mark _ => exact .nil
  | expr _ value => exact .append (value.tidy valid) (.one trivial)
  | use decl module names =>
      obtain ⟨named, listed⟩ := valid
      rw [Root.code]
      split
      · exact .one named
      · next chosen =>
        split
        · exact .one named
        · next some_ =>
          have held := listed (by simpa using chosen) (by simpa using some_)
          exact .plain ⟨_, held, nofun⟩ (.plain named (.one named))

/-- Code of a module has no slots. -/
theorem codeRoots_tidy : (unit : List Root) → (∀ s ∈ unit, s.Valid ctx accepted) →
    ∀ {start : Nat}, Tidy ctx 0 (codeRoots start unit)
  | [], _, _ => .nil
  | s :: rest, valid, _ => by
      obtain ⟨first, others⟩ := List.forall_mem_cons.1 valid
      exact .append (s.tidy first) (codeRoots_tidy rest others)

/-- The code of a unit has sound operands. -/
theorem codeUnit_tidy {unit : List Root} (valid : ∀ s ∈ unit, s.Valid ctx accepted) :
    Tidy ctx 0 (codeUnit unit) :=
  .append (codeRoots_tidy unit valid) (.one trivial)

/-- The code of a method has sound operands. -/
theorem Body.tidy {b : Body} (valid : b.Valid ctx accepted slots) {loc : Location} :
    Tidy ctx slots (b.code loc) := by
  cases b with
  | statements bases body =>
      exact .append (.append (callBases_tidy valid.1) (tidy_stmts body valid.2)) (.one trivial)
  | fields items => exact .append (codeFields_tidy items valid) (.one trivial)

end Linked

/-! ## Loads and closures, instruction by instruction -/

/-- A closure is built right behind index `ip`. -/
def ClosesAt (body : List Instruction) (ip : Nat) : Prop :=
  ∃ i, body[ip + 1]? = some i ∧ i.op = .buildClosure

/-- How methods are loaded in a body: a method whose scope is a boundary as it is, any other as
a closure over the `slots` slots around it. Closures are built nowhere else. -/
structure LoadsMethods (ctx : Context) (slots : Nat) (body : List Instruction) : Prop where
  load : ∀ (ip : Nat) (i : Instruction) k, body[ip]? = some i → i.op = .loadConst →
    ctx.pool[i.arg]? = some (.method k) →
    ∃ f decl, ctx.functions[k]? = some f ∧ (.function decl, f.scope) ∈ ctx.opened ∧
      (ClosesAt body ip ↔ (ctx.scopes.scope f.scope).isBoundary = false) ∧
      (ClosesAt body ip → f.localCount = slots)
  first : ∀ i : Instruction, body[0]? = some i → i.op ≠ .buildClosure
  closure : ∀ ip, ClosesAt body ip → ∃ (i : Instruction) (k : Nat), body[ip]? = some i ∧
    i.op = .loadConst ∧ ctx.pool[i.arg]? = some (.method k)

/-- Putting an instruction that builds no closure in front of a body. -/
theorem LoadsMethods.cons {i : Instruction} {body : List Instruction}
    (loads : LoadsMethods ctx slots body) (other : i.op ≠ .buildClosure)
    (loaded : ∀ k, i.op = .loadConst → ctx.pool[i.arg]? = some (.method k) →
      ∃ f decl, ctx.functions[k]? = some f ∧ (.function decl, f.scope) ∈ ctx.opened ∧
        (ctx.scopes.scope f.scope).isBoundary = true) :
    LoadsMethods ctx slots (i :: body) := by
  have behind : ¬ ClosesAt (i :: body) 0 := fun ⟨j, found, closes⟩ => loads.first j found closes
  refine ⟨fun ip j k found op held => ?_, fun j found => ?_, fun ip closes => ?_⟩
  · cases ip with
    | zero =>
        cases found
        obtain ⟨f, decl, added, logged, boundary⟩ := loaded k op held
        refine ⟨f, decl, added, logged, ⟨fun closes => absurd closes behind, fun nested => ?_⟩,
          fun closes => absurd closes behind⟩
        exact absurd (boundary.symm.trans nested) Bool.noConfusion
    | succ ip => exact loads.load ip j k found op held
  · cases found
    exact other
  · cases ip with
    | zero => exact absurd closes behind
    | succ ip => exact loads.closure ip closes

/-- Putting a method and the closure built of it in front of a body. -/
theorem LoadsMethods.consClosure {decl : FuncDecl} {method const : Nat} {loc loc' : Location}
    {body : List Instruction} (loads : LoadsMethods ctx slots body)
    (nested : ctx.Nested slots decl method const true) :
    LoadsMethods ctx slots (⟨.loadConst, const, loc⟩ :: ⟨.buildClosure, 0, loc'⟩ :: body) := by
  obtain ⟨held, f, added, logged, boundary, shared⟩ := nested
  have closed : ClosesAt (⟨.loadConst, const, loc⟩ :: ⟨.buildClosure, 0, loc'⟩ :: body) 0 :=
    ⟨_, rfl, rfl⟩
  have behind : ¬ ClosesAt (⟨.loadConst, const, loc⟩ :: ⟨.buildClosure, 0, loc'⟩ :: body) 1 :=
    fun ⟨j, found, closes⟩ => loads.first j found closes
  refine ⟨fun ip j k found op held' => ?_, fun j found => ?_, fun ip closes => ?_⟩
  · match ip with
    | 0 =>
        cases found
        cases held.symm.trans held'
        refine ⟨f, decl, added, logged, ⟨fun _ => ?_, fun _ => closed⟩, fun _ => shared rfl⟩
        exact Bool.not_eq_true' _ ▸ boundary.symm
    | 1 =>
        cases found
        cases op
    | ip + 2 => exact loads.load ip j k found op held'
  · cases found
    exact Opcode.noConfusion
  · match ip with
    | 0 => exact ⟨_, method, rfl, rfl, held⟩
    | 1 => exact absurd closes behind
    | ip + 2 => exact loads.closure ip closes

/-- Only methods that are constants are made closures. -/
theorem Tidy.loadsMethods {code : Fragment} (tidy : Tidy ctx slots code) :
    LoadsMethods ctx slots (code.map Slot.instruction) := by
  induction tidy with
  | nil =>
      refine ⟨fun _ _ _ found => ?_, fun _ found => ?_, fun _ ⟨_, found, _⟩ => ?_⟩ <;>
        simp at found
  | @plain slot rest refers _ ih =>
      have instruction : slot.instruction.Refers ctx slots := by
        cases slot with
        | fixed i => exact refers
        | leaveLoop loc | nextRound loc => trivial
      refine ih.cons (fun closes => ?_) fun k loads held => ?_
      · simp only [Instruction.Refers, closes] at instruction
      · simp only [Instruction.Refers, loads] at instruction
        obtain ⟨c, found, other⟩ := instruction
        exact absurd (Option.some.inj (found.symm.trans held)) (other k)
  | method nested _ ih =>
      obtain ⟨held, f, added, logged, boundary, _⟩ := nested
      refine ih.cons (nofun) fun k _ held' => ?_
      cases held.symm.trans held'
      exact ⟨f, _, added, logged, Bool.not_eq_false' _ ▸ boundary.symm⟩
  | closure nested _ ih => exact ih.consClosure nested

/-- The operand of an instruction is what the machine takes it for, whether a constant it
loads is a method or not. -/
def Instruction.Grounded (pool : Array Constant) (slots : Nat) (i : Instruction) : Prop :=
  match i.op with
  | .loadConst => ∃ c, pool[i.arg]? = some c
  | .loadGlobal | .storeGlobal | .loadAttribute | .storeAttribute | .importModule | .importFrom
  | .importAll => ∃ name, pool[i.arg]? = some (.str name)
  | .loadLocal | .storeLocal => i.arg < slots
  | .binOp => ∃ op, BinaryOp.ofTag? i.arg = some op
  | .unaryOp => ∃ op, UnaryOp.ofTag? i.arg = some op
  | _ => True

/-- What an instruction refers to is found when the code is loaded. -/
theorem Instruction.Refers.grounded {i : Instruction} (refers : i.Refers ctx slots) :
    i.Grounded ctx.pool slots := by
  obtain ⟨op, arg, loc⟩ := i
  cases op with
  | loadConst =>
      obtain ⟨c, held, _⟩ := refers
      exact ⟨c, held⟩
  | buildClosure => exact refers.elim
  | _ => exact refers

/-- All operands of tidy code are what the machine takes them for. -/
theorem Tidy.grounded {code : Fragment} (tidy : Tidy ctx slots code) {ip : Nat} {i : Instruction}
    (found : code.body[ip]? = some i) : i.Grounded ctx.pool slots := by
  have each : ∀ slot ∈ code, slot.instruction.Grounded ctx.pool slots := by
    clear found
    induction tidy with
    | nil => exact fun _ member => absurd member List.not_mem_nil
    | @plain slot rest refers _ ih =>
        refine List.forall_mem_cons.2 ⟨?_, ih⟩
        cases slot with
        | fixed i => exact refers.grounded
        | leaveLoop loc | nextRound loc => trivial
    | method nested _ ih => exact List.forall_mem_cons.2 ⟨⟨_, nested.held⟩, ih⟩
    | closure nested _ ih =>
        exact List.forall_mem_cons.2 ⟨⟨_, nested.held⟩, List.forall_mem_cons.2 ⟨trivial, ih⟩⟩
  rw [Fragment.body, List.getElem?_toArray, List.getElem?_map] at found
  obtain ⟨slot, there, rfl⟩ := Option.map_eq_some_iff.1 found
  exact each slot (List.mem_of_getElem? there)

end ScriptMachine
