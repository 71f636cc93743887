import Schematic.Layout.Numbering
import Schematic.Proofs.Formula.PreOrder

/-!
# The numbers of nodes

Whatever lies below it on the stack, the loop numbers the part on top and all parts under it before
it goes on, and hands every part the numbers of its operands in their order (`run_cons_eq`). So a
formula's nodes are its parts in pre-order, and what a node computes follows from its part and its
number alone (`operations_eq`): the operands of a gate stand behind it, at the places where the
parts of their formulas start.
-/

namespace Schematic.Layout

open Formula (operandPlaces preOrder)

/-- The operation of a part, if its node has the number. -/
def operationAt (id : NodeId) : Formula → Operation
  | .var name => .var name
  | .not _ => .not (id + 1)
  | .and operands => .and (operandPlaces (id + 1) operands)
  | .or operands => .or (operandPlaces (id + 1) operands)

/-- A node reads the nodes of the operands of its part. -/
@[simp] theorem inputs_operationAt (id : NodeId) (f : Formula) :
    (operationAt id f).inputs = operandPlaces (id + 1) f.operands := by
  cases f <;> rfl

/-- The operations of parts that are numbered from `first` on. -/
def operationsFrom (first : NodeId) (parts : List Formula) : List Operation :=
  (parts.zipIdx first).map fun (part, id) => operationAt id part

theorem operationsFrom_cons (first : NodeId) (part : Formula) (parts : List Formula) :
    operationsFrom first (part :: parts) =
      operationAt first part :: operationsFrom (first + 1) parts := by
  simp [operationsFrom]

theorem operationsFrom_append (first : NodeId) (parts more : List Formula) :
    operationsFrom first (parts ++ more) =
      operationsFrom first parts ++ operationsFrom (first + parts.length) more := by
  simp [operationsFrom, List.zipIdx_append]

@[simp] theorem length_operationsFrom (first : NodeId) (parts : List Formula) :
    (operationsFrom first parts).length = parts.length := by
  simp [operationsFrom]

/-! ### Handing numbers to a gate -/

theorem modify_append_of_lt {β : Type} {xs : Array β} {i : Nat} (h : i < xs.size) (f : β → β)
    (ys : Array β) : (xs ++ ys).modify i f = xs.modify i f ++ ys := by
  apply Array.ext
  · simp
  · intro j hj hj'
    by_cases hlt : j < xs.size
    · simp [Array.getElem_modify, hlt]
    · have hne : i ≠ j := by omega
      simp [Array.getElem_modify, Array.getElem_append, hlt, hne]

theorem modify_push_of_eq {β : Type} {xs : Array β} {i : Nat} (h : i = xs.size) (f : β → β)
    (x : β) : (xs.push x).modify i f = xs.push (f x) := by
  subst h
  apply Array.ext
  · simp
  · intro j hj hj'
    by_cases hlt : j < xs.size
    · have hne : xs.size ≠ j := by omega
      simp [Array.getElem_modify, Array.getElem_push, hlt, hne]
    · have heq : xs.size = j := by
        rw [Array.size_push] at hj'
        omega
      simp [Array.getElem_modify, Array.getElem_push, heq]

/-- The numbers of operands are handed to their gate, if they have one. -/
def hand (ids : List NodeId) (inputs : Array (Array NodeId)) :
    Option NodeId → Array (Array NodeId)
  | none => inputs
  | some gate => inputs.modify gate (· ++ ids.toArray)

section

variable (ids more : List NodeId) (inputs : Array (Array NodeId)) (gate? : Option NodeId)

@[simp] theorem size_hand : (hand ids inputs gate?).size = inputs.size := by
  cases gate? <;> simp [hand]

@[simp] theorem hand_nil : hand [] inputs gate? = inputs := by
  cases gate? with
  | none => rfl
  | some gate => apply Array.ext <;> simp [hand, Array.getElem_modify]

theorem hand_hand : hand more (hand ids inputs gate?) gate? = hand (ids ++ more) inputs gate? := by
  cases gate? with
  | none => rfl
  | some gate =>
    apply Array.ext
    · simp
    · intro id hid hid'
      by_cases h : gate = id <;> simp [hand, h, Array.getElem_modify]

variable {inputs gate?}

theorem hand_append (h : ∀ gate ∈ gate?, gate < inputs.size) (others : Array (Array NodeId)) :
    hand ids (inputs ++ others) gate? = hand ids inputs gate? ++ others := by
  cases gate? with
  | none => rfl
  | some gate => exact modify_append_of_lt (h gate rfl) (· ++ ids.toArray) others

end

/-! ### The loop -/

/-- The numbers that parts are handed by their operands, if the parts are numbered from `first`
on. -/
def inputsFrom (first : NodeId) (parts : List Formula) : List (Array NodeId) :=
  (parts.zipIdx first).map fun (part, id) => (operandPlaces (id + 1) part.operands).toArray

theorem inputsFrom_cons (first : NodeId) (part : Formula) (parts : List Formula) :
    inputsFrom first (part :: parts) =
      (operandPlaces (first + 1) part.operands).toArray :: inputsFrom (first + 1) parts := by
  simp [inputsFrom]

theorem inputsFrom_append (first : NodeId) (parts more : List Formula) :
    inputsFrom first (parts ++ more) =
      inputsFrom first parts ++ inputsFrom (first + parts.length) more := by
  simp [inputsFrom, List.zipIdx_append]

/-- Whoever was handed the places of its operands computes what its place says. -/
theorem operationOf_operandPlaces (id : NodeId) (part : Formula) :
    operationOf (operandPlaces (id + 1) part.operands).toArray part = operationAt id part := by
  cases part <;> simp [operationOf, operationAt, Formula.operands, operandPlaces]

theorem zipWith_inputsFrom (first : NodeId) (parts : List Formula) :
    List.zipWith (fun part inputs => operationOf inputs part) parts (inputsFrom first parts) =
      operationsFrom first parts := by
  induction parts generalizing first with
  | nil => rfl
  | cons part parts ih =>
    rw [inputsFrom_cons, List.zipWith_cons_cons, operationOf_operandPlaces, ih,
      operationsFrom_cons]

namespace Numbering

theorem ext_order_inputs {numbering other : Numbering}
    (horder : numbering.order = other.order) (hinputs : numbering.inputs = other.inputs) :
    numbering = other := by
  cases numbering
  cases other
  cases horder
  cases hinputs
  rfl

variable (numbering : Numbering) (f : Formula) (fs : List Formula) (gate? : Option NodeId)

/-- What the loop has done once the parts of some operands of a gate have their numbers: they got
the next ones, one operand after the other, and every part was handed those of its operands. -/
def visitAll : Numbering where
  order := numbering.order ++ (fs.flatMap preOrder).toArray
  inputs := hand (operandPlaces numbering.order.size fs) numbering.inputs gate? ++
    (inputsFrom numbering.order.size (fs.flatMap preOrder)).toArray
  size_inputs := by simp [inputsFrom, numbering.size_inputs]

theorem size_order_visit :
    (numbering.visit f gate?).order.size = numbering.order.size + 1 := by
  simp [visit]

theorem inputs_visit :
    (numbering.visit f gate?).inputs =
      (hand [numbering.order.size] numbering.inputs gate?).push #[] := by
  cases gate? <;> simp [visit, hand]

theorem size_order_visitAll :
    (numbering.visitAll fs gate?).order.size =
      numbering.order.size + (fs.flatMap preOrder).length := by
  simp [visitAll]

theorem visitAll_nil : numbering.visitAll [] gate? = numbering := by
  apply ext_order_inputs <;> simp [visitAll, operandPlaces, inputsFrom]

/-- The loop may be interrupted between two operands. -/
theorem visitAll_cons {numbering : Numbering} {gate? : Option NodeId}
    (h : ∀ gate ∈ gate?, gate < numbering.order.size) :
    (numbering.visitAll [f] gate?).visitAll fs gate? = numbering.visitAll (f :: fs) gate? := by
  have hbound : ∀ id, ∀ gate ∈ gate?, gate < (hand [id] numbering.inputs gate?).size := by
    simpa [numbering.size_inputs] using h
  apply ext_order_inputs
  · simp [visitAll]
  · simp [visitAll, operandPlaces, hand_append _ (hbound _), hand_hand, inputsFrom_append,
      Formula.nodeCount]

/-- A part that got its number waits only for those of its operands. -/
theorem visitAll_operands :
    (numbering.visit f gate?).visitAll f.operands (some numbering.order.size) =
      numbering.visitAll [f] gate? := by
  apply ext_order_inputs
  · simp [visitAll, visit, Formula.preOrder_eq f]
  · simp only [visitAll, inputs_visit, size_order_visit, List.flatMap_singleton,
      Formula.preOrder_eq f, inputsFrom_cons, operandPlaces]
    rw [hand, modify_push_of_eq (by simp [numbering.size_inputs])]
    simp

theorem run_operands_append {fs : List Formula} {gate : NodeId}
    (h : ∀ f ∈ fs, ∀ numbering : Numbering, gate < numbering.order.size → ∀ stack,
      numbering.run ((f, some gate) :: stack) = (numbering.visitAll [f] (some gate)).run stack)
    {numbering : Numbering} (hgate : gate < numbering.order.size) (stack : List Waiting) :
    numbering.run (fs.map (·, some gate) ++ stack) =
      (numbering.visitAll fs (some gate)).run stack := by
  induction fs generalizing numbering with
  | nil => rw [visitAll_nil, List.map_nil, List.nil_append]
  | cons f fs ih =>
    rw [List.forall_mem_cons] at h
    have hlater : gate < (numbering.visitAll [f] (some gate)).order.size := by
      rw [size_order_visitAll]
      exact Nat.lt_add_right _ hgate
    rw [List.map_cons, List.cons_append, h.1 numbering hgate, ih h.2 hlater, visitAll_cons]
    simpa using hgate

/-- **Whatever lies below it on the stack**, the loop numbers the part on top and the parts under it
before it goes on. -/
theorem run_cons_eq {numbering : Numbering} {gate? : Option NodeId}
    (h : ∀ gate ∈ gate?, gate < numbering.order.size) (stack : List Waiting) :
    numbering.run ((f, gate?) :: stack) = (numbering.visitAll [f] gate?).run stack := by
  induction f using Formula.inductionOnOperands generalizing gate? numbering stack with
  | step f ih =>
    have hoperands : ∀ operand ∈ f.operands, ∀ other : Numbering,
        numbering.order.size < other.order.size → ∀ stack,
          other.run ((operand, some numbering.order.size) :: stack) =
            (other.visitAll [operand] (some numbering.order.size)).run stack := by
      intro operand hoperand other hsize stack
      exact ih operand hoperand (by simpa using hsize) stack
    have hsize : numbering.order.size < (numbering.visit f gate?).order.size := by
      rw [size_order_visit]
      omega
    rw [run, push_reverse, run_operands_append hoperands hsize, visitAll_operands]

/-- The loop gives every part its place in pre-order, and hands it the places of its operands. -/
theorem run_empty :
    (empty.run [(f, none)]).order = f.preOrder.toArray ∧
      (empty.run [(f, none)]).inputs = (inputsFrom 0 f.preOrder).toArray := by
  rw [run_cons_eq f (by simp), run]
  simp [visitAll, empty, hand]

end Numbering

/-- Every part of the formula has a node, and its place in pre-order is the number of the node. -/
theorem operations_eq (f : Formula) : operations f = operationsFrom 0 f.preOrder := by
  obtain ⟨horder, hinputs⟩ := Numbering.run_empty f
  rw [operations, Array.toList_zipWith, horder, hinputs, List.toList_toArray,
    List.toList_toArray, zipWith_inputsFrom]

@[simp] theorem length_operations (f : Formula) : (operations f).length = f.nodeCount := by
  rw [operations_eq, length_operationsFrom, Formula.nodeCount]

theorem getElem?_operations (f : Formula) (id : NodeId) :
    (operations f)[id]? = f.preOrder[id]?.map (operationAt id) := by
  simp [operations_eq, operationsFrom, Function.comp_def]

end Schematic.Layout
