import SimCme.Engine.Order
import SimCme.Library.LinkedQueue

/-!
# Price levels by intrusive links

The queue of a price level as the source keeps it: a head and a tail, and in
every order a link to the order before and to the order after it.  The level of
{lit}`SimCme.Engine.Order` names the orders of the queue in a list; here the
operations are the pointer writes, and they implement those of the list.

Main results:

- Theorems {lit}`LinkedPriceLevel.Implements.addOrder` and
  {lit}`LinkedPriceLevel.Implements.removeOrder`: the pointer writes append to the
  queue and take an order out of it at any position.
- Theorem {lit}`LinkedPriceLevel.Implements.of_frame`: a level keeps its queue where
  the records of its orders stay the same.
- Theorem {lit}`LinkedPriceLevel.Implements.unique`: the queue of a level is
  determined by its links.
- Theorem {lit}`LinkedPriceLevel.Implements.visit`: the iterator of a level visits
  its queue in order.
-/

namespace SimCme

open Library

/-! ## Orders with links -/

/-- An order with its links in the queue of a price level. -/
structure LinkedOrder extends Order where
  prevInLevel : Option OrderRef := none
  nextInLevel : Option OrderRef := none
deriving DecidableEq, Repr, Inhabited

/-- The orders that levels share by pointer. -/
abbrev OrderHeap := Heap LinkedOrder

namespace OrderHeap

variable (h : OrderHeap) (order r : OrderRef) (link : Option OrderRef)

def setPrevInLevel : OrderHeap :=
  h.modify order fun o => { o with prevInLevel := link }

def setNextInLevel : OrderHeap :=
  h.modify order fun o => { o with nextInLevel := link }

/-- The links the orders carry. -/
def links : Links OrderRef where
  prev r := (h.read r).prevInLevel
  next r := (h.read r).nextInLevel

/-- The orders without their links. -/
def orders : Heap Order where
  cells r := (h.read r).toOrder
  next := h.next

theorem read_orders : (orders h).read r = (h.read r).toOrder :=
  rfl

@[simp]
theorem prev_setPrevInLevel :
    (links (setPrevInLevel h order link)).prev r =
      if r = order then link else (links h).prev r := by
  by_cases heq : r = order
  · simp [links, setPrevInLevel, heq]
  · simp [links, setPrevInLevel, heq]

@[simp]
theorem next_setPrevInLevel :
    (links (setPrevInLevel h order link)).next r = (links h).next r := by
  by_cases heq : r = order
  · simp [links, setPrevInLevel, heq]
  · simp [links, setPrevInLevel, heq]

@[simp]
theorem next_setNextInLevel :
    (links (setNextInLevel h order link)).next r =
      if r = order then link else (links h).next r := by
  by_cases heq : r = order
  · simp [links, setNextInLevel, heq]
  · simp [links, setNextInLevel, heq]

@[simp]
theorem prev_setNextInLevel :
    (links (setNextInLevel h order link)).prev r = (links h).prev r := by
  by_cases heq : r = order
  · simp [links, setNextInLevel, heq]
  · simp [links, setNextInLevel, heq]

@[simp]
theorem orders_setPrevInLevel : orders (setPrevInLevel h order link) = orders h := by
  apply Heap.ext_read
  · intro r
    by_cases heq : r = order
    · simp [read_orders, setPrevInLevel, heq]
    · simp [read_orders, setPrevInLevel, heq]
  · rfl

@[simp]
theorem orders_setNextInLevel : orders (setNextInLevel h order link) = orders h := by
  apply Heap.ext_read
  · intro r
    by_cases heq : r = order
    · simp [read_orders, setNextInLevel, heq]
    · simp [read_orders, setNextInLevel, heq]
  · rfl

@[simp]
theorem toOrder_read : (h.read r).toOrder = (orders h).read r :=
  rfl

@[simp]
theorem prevInLevel_read : (h.read r).prevInLevel = (links h).prev r :=
  rfl

@[simp]
theorem nextInLevel_read : (h.read r).nextInLevel = (links h).next r :=
  rfl

/-- A record is its order and its links. -/
theorem read_eq {h h' : OrderHeap} {r : OrderRef} (horders : orders h' = orders h)
    (hprev : (links h').prev r = (links h).prev r)
    (hnext : (links h').next r = (links h).next r) : h'.read r = h.read r := by
  have horder : (h'.read r).toOrder = (h.read r).toOrder := by
    rw [← read_orders, horders, read_orders]
  cases hnew : h'.read r with
  | mk order' prev' next' =>
      cases hold : h.read r with
      | mk order prev next =>
          simp only [links, hnew, hold] at horder hprev hnext
          rw [horder, hprev, hnext]

/-! ### Writes through a link -/

variable (earlier later head tail : Option OrderRef)

/-- Set the forward link of the order in front, or the head if there is none. -/
def linkForward (h : OrderHeap) (earlier head link : Option OrderRef) :
    Option OrderRef × OrderHeap :=
  match earlier with
  | some order => (head, setNextInLevel h order link)
  | none => (link, h)

/-- Set the backward link of the order behind, or the tail if there is none. -/
def linkBackward (h : OrderHeap) (later tail link : Option OrderRef) :
    Option OrderRef × OrderHeap :=
  match later with
  | some order => (tail, setPrevInLevel h order link)
  | none => (link, h)

@[simp]
theorem linkForward_fst :
    (linkForward h earlier head link).1 = if earlier.isSome then head else link := by
  cases earlier with
  | none => rfl
  | some order => rfl

@[simp]
theorem next_linkForward :
    (links (linkForward h earlier head link).2).next r =
      if earlier = some r then link else (links h).next r := by
  cases earlier with
  | none => simp [linkForward]
  | some order => simp [linkForward, eq_comm]

@[simp]
theorem prev_linkForward :
    (links (linkForward h earlier head link).2).prev r = (links h).prev r := by
  cases earlier with
  | none => rfl
  | some order => simp [linkForward]

@[simp]
theorem orders_linkForward : orders (linkForward h earlier head link).2 = orders h := by
  cases earlier with
  | none => rfl
  | some order => simp [linkForward]

@[simp]
theorem linkBackward_fst :
    (linkBackward h later tail link).1 = if later.isSome then tail else link := by
  cases later with
  | none => rfl
  | some order => rfl

@[simp]
theorem prev_linkBackward :
    (links (linkBackward h later tail link).2).prev r =
      if later = some r then link else (links h).prev r := by
  cases later with
  | none => simp [linkBackward]
  | some order => simp [linkBackward, eq_comm]

@[simp]
theorem next_linkBackward :
    (links (linkBackward h later tail link).2).next r = (links h).next r := by
  cases later with
  | none => rfl
  | some order => simp [linkBackward]

@[simp]
theorem orders_linkBackward : orders (linkBackward h later tail link).2 = orders h := by
  cases later with
  | none => rfl
  | some order => simp [linkBackward]

end OrderHeap

/-! ## The level -/

/-- A price level with the ends of its queue. -/
structure LinkedPriceLevel where
  price : Price := default
  totalQuantity : Int := 0
  orderCount : Int := 0
  head : Option OrderRef := none
  tail : Option OrderRef := none
deriving DecidableEq, Repr

namespace LinkedPriceLevel

open OrderHeap

def addOrder (level : LinkedPriceLevel) (h : OrderHeap) (order : OrderRef) :
    LinkedPriceLevel × OrderHeap :=
  let h := setPrevInLevel h order level.tail
  let h := setNextInLevel h order none
  let (head, h) := linkForward h level.tail level.head (some order)
  ({ level with
      head := head
      tail := some order
      totalQuantity := level.totalQuantity + (h.read order).remainingQty
      orderCount := level.orderCount + 1 }, h)

def removeOrder (level : LinkedPriceLevel) (h : OrderHeap) (order : OrderRef) :
    LinkedPriceLevel × OrderHeap :=
  let (head, h) :=
    linkForward h (h.read order).prevInLevel level.head (h.read order).nextInLevel
  let (tail, h) :=
    linkBackward h (h.read order).nextInLevel level.tail (h.read order).prevInLevel
  let totalQuantity := level.totalQuantity - (h.read order).remainingQty
  let h := setPrevInLevel h order none
  let h := setNextInLevel h order none
  ({ level with
      head := head
      tail := tail
      totalQuantity := totalQuantity
      orderCount := level.orderCount - 1 }, h)

def front (level : LinkedPriceLevel) : Option OrderRef :=
  level.head

def empty (level : LinkedPriceLevel) : Bool :=
  level.head.isNone

/-- A position in the queue of a level; null is the end. -/
structure Iterator where
  current : Option OrderRef
deriving DecidableEq, Repr

def beginIterator (level : LinkedPriceLevel) : Iterator :=
  ⟨level.head⟩

def endIterator : Iterator :=
  ⟨none⟩

/-- The orders a loop up to the end dereferences in at most so many turns, and the
iterator it is left with. -/
def visit (h : OrderHeap) : Nat → Iterator → List OrderRef × Iterator
  | 0, it => ([], it)
  | fuel + 1, it =>
      match it.current with
      | none => ([], it)
      | some order =>
          let rest := visit h fuel ⟨(h.read order).nextInLevel⟩
          (order :: rest.1, rest.2)

/-! ### What the operations change -/

section Frame

variable (level : LinkedPriceLevel) (h : OrderHeap) (order r : OrderRef)

@[simp]
theorem prev_addOrder :
    (links (level.addOrder h order).2).prev r =
      if r = order then level.tail else (links h).prev r := by
  simp [addOrder]

@[simp]
theorem next_addOrder :
    (links (level.addOrder h order).2).next r =
      if level.tail = some r then some order
      else if r = order then none
      else (links h).next r := by
  simp [addOrder]

@[simp]
theorem orders_addOrder : orders (level.addOrder h order).2 = orders h := by
  simp [addOrder]

/-- The level after an order has joined. -/
theorem addOrder_fst :
    (level.addOrder h order).1 =
      { level with
        head := if level.tail.isSome then level.head else some order
        tail := some order
        totalQuantity := level.totalQuantity + ((orders h).read order).remainingQty
        orderCount := level.orderCount + 1 } := by
  simp [addOrder]

@[simp]
theorem prev_removeOrder :
    (links (level.removeOrder h order).2).prev r =
      if r = order then none
      else if (links h).next order = some r then (links h).prev order
      else (links h).prev r := by
  simp [removeOrder]

@[simp]
theorem next_removeOrder :
    (links (level.removeOrder h order).2).next r =
      if r = order then none
      else if (links h).prev order = some r then (links h).next order
      else (links h).next r := by
  simp [removeOrder]

@[simp]
theorem orders_removeOrder : orders (level.removeOrder h order).2 = orders h := by
  simp [removeOrder]

/-- The level after an order has left. -/
theorem removeOrder_fst :
    (level.removeOrder h order).1 =
      { level with
        head := if ((links h).prev order).isSome then level.head else (links h).next order
        tail := if ((links h).next order).isSome then level.tail else (links h).prev order
        totalQuantity := level.totalQuantity - ((orders h).read order).remainingQty
        orderCount := level.orderCount - 1 } := by
  simp [removeOrder]

/-- Joining changes the records of the order and of the last order only. -/
theorem read_addOrder_of_ne (hne : r ≠ order) (hlast : level.tail ≠ some r) :
    (level.addOrder h order).2.read r = h.read r := by
  apply read_eq
  · simp
  · simp [hne]
  · simp [hne, hlast]

/-- Leaving changes the records of the order and of its neighbours only. -/
theorem read_removeOrder_of_ne (hne : r ≠ order) (hprev : (links h).prev order ≠ some r)
    (hnext : (links h).next order ≠ some r) :
    (level.removeOrder h order).2.read r = h.read r := by
  apply read_eq
  · simp
  · simp [hne, hnext]
  · simp [hne, hprev]

end Frame

/-! ### The queue a level implements -/

/-- The links and the ends of a level spell the queue of a level that lists it. -/
structure Implements (level : LinkedPriceLevel) (h : OrderHeap) (listed : PriceLevel) :
    Prop where
  price_eq : level.price = listed.price
  totalQuantity_eq : level.totalQuantity = listed.totalQuantity
  orderCount_eq : level.orderCount = listed.orderCount
  head_eq : level.head = listed.queue.head?
  tail_eq : level.tail = listed.queue.getLast?
  linked : (links h).Linked listed.queue
  nodup : listed.queue.Nodup

namespace Implements

variable {level : LinkedPriceLevel} {h h' : OrderHeap} {listed : PriceLevel} {order : OrderRef}

/-- A new level is empty, whatever the heap holds. -/
theorem new (price : Price) (h : OrderHeap) :
    Implements { price := price } h { price := price } where
  price_eq := rfl
  totalQuantity_eq := rfl
  orderCount_eq := rfl
  head_eq := rfl
  tail_eq := rfl
  linked := trivial
  nodup := List.nodup_nil

/-- A level keeps its queue where the records of its orders stay the same. -/
theorem of_frame (himpl : level.Implements h listed)
    (hread : ∀ r ∈ listed.queue, h'.read r = h.read r) : level.Implements h' listed where
  price_eq := himpl.price_eq
  totalQuantity_eq := himpl.totalQuantity_eq
  orderCount_eq := himpl.orderCount_eq
  head_eq := himpl.head_eq
  tail_eq := himpl.tail_eq
  linked := by
    apply himpl.linked.congr
    · intro r hr
      exact congrArg LinkedOrder.prevInLevel (hread r hr)
    · intro r hr
      exact congrArg LinkedOrder.nextInLevel (hread r hr)
  nodup := himpl.nodup

/-- The pointer writes of {lit}`addOrder` append to the queue. -/
theorem addOrder (himpl : level.Implements h listed) (hout : order ∉ listed.queue) :
    (level.addOrder h order).1.Implements (level.addOrder h order).2
      (listed.addOrder (orders h) order) := by
  have hnodup : (listed.queue ++ [order]).Nodup := by
    rw [← List.concat_eq_append]
    exact himpl.nodup.concat hout
  have hne : ∀ r ∈ listed.queue, r ≠ order := fun r hr heq => hout (heq ▸ hr)
  rw [addOrder_fst]
  exact
    { price_eq := himpl.price_eq
      totalQuantity_eq := by simp [PriceLevel.addOrder, himpl.totalQuantity_eq]
      orderCount_eq := by simp [PriceLevel.addOrder, himpl.orderCount_eq]
      head_eq := by
        rw [himpl.head_eq, himpl.tail_eq]
        cases hqueue : listed.queue with
        | nil => simp [PriceLevel.addOrder, hqueue]
        | cons first rest => simp [PriceLevel.addOrder, hqueue]
      tail_eq := by simp [PriceLevel.addOrder]
      linked := by
        apply himpl.linked.concat hnodup
        · intro r hr
          rw [prev_addOrder, if_neg (hne r hr)]
        · intro r hr
          rw [next_addOrder, himpl.tail_eq, if_neg (hne r hr)]
        · rw [prev_addOrder, if_pos rfl, himpl.tail_eq]
        · have hlast : listed.queue.getLast? ≠ some order := fun heq =>
            hout (List.mem_of_getLast? heq)
          rw [next_addOrder, himpl.tail_eq, if_neg hlast, if_pos rfl]
      nodup := hnodup }

/-- The pointer writes of {lit}`removeOrder` take an order out of the queue,
whatever its position. -/
theorem removeOrder (himpl : level.Implements h listed) (hin : order ∈ listed.queue) :
    (level.removeOrder h order).1.Implements (level.removeOrder h order).2
      (listed.removeOrder (orders h) order) := by
  obtain ⟨front, back, hqueue⟩ := List.append_of_mem hin
  have hlinked := himpl.linked
  have hnodup := himpl.nodup
  rw [hqueue] at hlinked hnodup
  have hout : order ∉ front ++ back := (List.nodup_middle.mp hnodup).notMem
  have hne : ∀ r ∈ front ++ back, r ≠ order := fun r hr heq => hout (heq ▸ hr)
  have herase : listed.queue.erase order = front ++ back := by
    rw [hqueue, List.erase_append_right _ fun hr => hout (List.mem_append_left back hr),
      List.erase_cons_head]
  have hprev := hlinked.prev_middle
  have hnext := hlinked.next_middle
  rw [removeOrder_fst]
  exact
    { price_eq := himpl.price_eq
      totalQuantity_eq := by simp [PriceLevel.removeOrder, himpl.totalQuantity_eq]
      orderCount_eq := by simp [PriceLevel.removeOrder, himpl.orderCount_eq]
      head_eq := by
        rw [hprev, hnext, himpl.head_eq, hqueue]
        cases front with
        | nil => simp [PriceLevel.removeOrder, herase]
        | cons first rest => simp [PriceLevel.removeOrder, herase]
      tail_eq := by
        rw [hprev, hnext, himpl.tail_eq, hqueue]
        cases back with
        | nil => simp [PriceLevel.removeOrder, herase]
        | cons first rest => simp [PriceLevel.removeOrder, herase]
      linked := by
        change Links.Linked _ (listed.queue.erase order)
        rw [herase]
        apply hlinked.erase_middle hnodup
        · intro r hr
          rw [prev_removeOrder, if_neg (hne r hr)]
        · intro r hr
          rw [next_removeOrder, if_neg (hne r hr)]
      nodup := himpl.nodup.erase order }

/-- Joining leaves the records of all others outside the queue alone. -/
theorem read_addOrder (himpl : level.Implements h listed) {r : OrderRef} (hne : r ≠ order)
    (hr : r ∉ listed.queue) : (level.addOrder h order).2.read r = h.read r := by
  have hlast : level.tail ≠ some r := by
    rw [himpl.tail_eq]
    exact fun heq => hr (List.mem_of_getLast? heq)
  exact read_addOrder_of_ne level h order r hne hlast

/-- Leaving leaves the records of all orders outside the queue alone. -/
theorem read_removeOrder (himpl : level.Implements h listed) (hin : order ∈ listed.queue)
    {r : OrderRef} (hr : r ∉ listed.queue) :
    (level.removeOrder h order).2.read r = h.read r := by
  have hne : r ≠ order := fun heq => hr (heq ▸ hin)
  have hprev : (links h).prev order ≠ some r := fun heq =>
    hr (himpl.linked.mem_of_prev hin heq)
  have hnext : (links h).next order ≠ some r := fun heq =>
    hr (himpl.linked.mem_of_next hin heq)
  exact read_removeOrder_of_ne level h order r hne hprev hnext

/-- The links and the ends determine the queue. -/
theorem unique {listed' : PriceLevel} (himpl : level.Implements h listed)
    (himpl' : level.Implements h listed') : listed = listed' := by
  have hqueue : listed.queue = listed'.queue := by
    have hleads := himpl.linked.leads_next
    have hleads' := himpl'.linked.leads_next
    rw [← himpl.head_eq] at hleads
    rw [← himpl'.head_eq] at hleads'
    exact hleads.eq hleads'
  have hprice := himpl.price_eq.symm.trans himpl'.price_eq
  have htotal := himpl.totalQuantity_eq.symm.trans himpl'.totalQuantity_eq
  have hcount := himpl.orderCount_eq.symm.trans himpl'.orderCount_eq
  cases listed with
  | mk price totalQuantity orderCount queue =>
      cases listed' with
      | mk price' totalQuantity' orderCount' queue' =>
          simp only at hqueue hprice htotal hcount
          rw [hqueue, hprice, htotal, hcount]

theorem front_eq (himpl : level.Implements h listed) : level.front = listed.front :=
  himpl.head_eq

theorem empty_eq (himpl : level.Implements h listed) : level.empty = listed.empty := by
  rw [LinkedPriceLevel.empty, himpl.head_eq]
  cases hqueue : listed.queue with
  | nil => simp [PriceLevel.empty, hqueue]
  | cons first rest => simp [PriceLevel.empty, hqueue]

end Implements

/-- The loop of an iterator follows the forward links. -/
theorem visit_eq_follow (h : OrderHeap) (fuel : Nat) (it : Iterator) :
    visit h fuel it =
      ((follow (links h).next fuel it.current).1, ⟨(follow (links h).next fuel it.current).2⟩) := by
  induction fuel generalizing it with
  | zero => rfl
  | succ fuel ih =>
      cases it with
      | mk current =>
          cases current with
          | none => rfl
          | some order => simp [visit, follow, ih]

/-- With enough turns the loop visits the queue in order and stops at the end. -/
theorem Implements.visit {level : LinkedPriceLevel} {h : OrderHeap} {listed : PriceLevel}
    (himpl : level.Implements h listed) {fuel : Nat} (hfuel : listed.queue.length ≤ fuel) :
    visit h fuel level.beginIterator = (listed.queue, endIterator) := by
  have hfollow := himpl.linked.leads_next.follow_eq hfuel
  rw [visit_eq_follow, beginIterator, himpl.head_eq, hfollow]
  rfl

end LinkedPriceLevel

end SimCme
