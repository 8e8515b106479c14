import Mathlib.Data.Nat.ModEq
import Mathlib.Logic.Function.Basic

/-!
# Retransmit buffer

A ring of recent outbound messages.  A message lies in the slot its sequence
number has modulo the capacity, until a later number takes the slot.

Main results:

- Theorem {lit}`RetransmitBuffer.Retains.store`: storing consecutive numbers keeps
  exactly a window of the latest messages.
- Theorem {lit}`RetransmitBuffer.storeFrom_sliding_window`: after any number of
  messages, what is retrieved under each number, and with what length.
-/

namespace SimCme

structure RetransmitBuffer where
  capacity : Nat := 10000
  /-- The sequence number and the message in each slot. -/
  entries : Nat → UInt32 × List UInt8 := fun _ => (0, [])

namespace RetransmitBuffer

def store (buffer : RetransmitBuffer) (seqNum : UInt32) (data : List UInt8) :
    RetransmitBuffer :=
  { buffer with
    entries := Function.update buffer.entries (seqNum.toNat % buffer.capacity) (seqNum, data) }

/-- The message stored under a sequence number, unless it was overwritten. -/
def retrieve (buffer : RetransmitBuffer) (seqNum : UInt32) : Option (List UInt8) :=
  let entry := buffer.entries (seqNum.toNat % buffer.capacity)
  if entry.1 = seqNum ∧ entry.2 ≠ [] then some entry.2 else none

/-- The message {lit}`retrieve` returns and the {lit}`out_len` it sets. -/
def retrieveOut (buffer : RetransmitBuffer) (seqNum : UInt32) : Option (List UInt8) × Nat :=
  let entry := buffer.entries (seqNum.toNat % buffer.capacity)
  if entry.1 = seqNum ∧ entry.2 ≠ [] then (some entry.2, entry.2.length) else (none, 0)

theorem retrieveOut_of_retrieve (buffer : RetransmitBuffer) (seqNum : UInt32) :
    buffer.retrieveOut seqNum =
      match buffer.retrieve seqNum with
      | some data => (some data, data.length)
      | none => (none, 0) := by
  simp only [retrieveOut, retrieve]
  split
  · rfl
  · rfl

theorem retrieve_store (buffer : RetransmitBuffer) (stored seqNum : UInt32)
    (data : List UInt8) :
    (buffer.store stored data).retrieve seqNum =
      if seqNum.toNat % buffer.capacity = stored.toNat % buffer.capacity then
        if stored = seqNum ∧ data ≠ [] then some data else none
      else buffer.retrieve seqNum := by
  by_cases hslot : seqNum.toNat % buffer.capacity = stored.toNat % buffer.capacity
  · simp [retrieve, store, hslot]
  · simp [retrieve, store, hslot]

/-- The numbers still kept once {lit}`count` messages were stored. -/
def InWindow (capacity count seqNum : Nat) : Prop :=
  1 ≤ seqNum ∧ seqNum ≤ count ∧ count < seqNum + capacity

instance decidableInWindow (capacity count seqNum : Nat) :
    Decidable (InWindow capacity count seqNum) :=
  inferInstanceAs (Decidable (_ ∧ _ ∧ _))

/-- The message sent with a number, counted from one. -/
def original (sent : List (List UInt8)) : Nat → Option (List UInt8)
  | 0 => none
  | k + 1 => sent[k]?

/-- The buffer holds exactly the latest of the messages sent. -/
def Retains (buffer : RetransmitBuffer) (sent : List (List UInt8)) : Prop :=
  ∀ seqNum : UInt32, buffer.retrieve seqNum =
    if InWindow buffer.capacity sent.length seqNum.toNat then original sent seqNum.toNat
    else none

theorem retains_nil (capacity : Nat) :
    Retains { capacity := capacity } [] := by
  intro seqNum
  have hout : ¬InWindow capacity 0 seqNum.toNat := by
    simp only [InWindow]
    omega
  simp [retrieve, hout]

/-- A number in the window of the slot that is stored next is the next number. -/
theorem eq_of_slot {capacity count seqNum : Nat}
    (hslot : seqNum % capacity = count % capacity) (hle : seqNum ≤ count)
    (hwindow : count < seqNum + capacity) : seqNum = count := by
  have hdiff : (count - seqNum) % capacity = 0 :=
    Nat.sub_mod_eq_zero_of_mod_eq hslot.symm
  rw [Nat.mod_eq_of_lt (by omega)] at hdiff
  omega

theorem original_append_of_le {sent : List (List UInt8)} {seqNum : Nat}
    (hle : seqNum ≤ sent.length) (data : List UInt8) :
    original (sent ++ [data]) seqNum = original sent seqNum := by
  cases seqNum with
  | zero => rfl
  | succ k => simp [original, List.getElem?_append_left (show k < sent.length by omega)]

/-- Storing the next message moves the window by one. -/
theorem Retains.store {buffer : RetransmitBuffer} {sent : List (List UInt8)}
    (hretains : buffer.Retains sent) (hcapacity : 0 < buffer.capacity) {stored : UInt32}
    (hstored : stored.toNat = sent.length + 1) {data : List UInt8} (hdata : data ≠ []) :
    (buffer.store stored data).Retains (sent ++ [data]) := by
  intro seqNum
  have hsame : (buffer.store stored data).capacity = buffer.capacity := rfl
  rw [retrieve_store, hsame, List.length_append, List.length_singleton, ← hstored]
  by_cases hslot : seqNum.toNat % buffer.capacity = stored.toNat % buffer.capacity
  · by_cases hnext : stored = seqNum
    · -- the message just stored
      subst hnext
      have hin : InWindow buffer.capacity stored.toNat stored.toNat := by
        simp only [InWindow]
        omega
      have hlast : original (sent ++ [data]) stored.toNat = some data := by
        simp [hstored, original]
      simp [hin, hdata, hlast]
    · -- another number of the slot is out of the window
      have hout : ¬InWindow buffer.capacity stored.toNat seqNum.toNat := by
        rintro ⟨-, hle, hwindow⟩
        exact hnext (UInt32.toNat_inj.mp (eq_of_slot hslot hle hwindow)).symm
      simp [hslot, hnext, hout]
  · -- in the other slots nothing changes, and the window moves past none of them
    rw [if_neg hslot, hretains seqNum]
    have hne : seqNum.toNat ≠ stored.toNat := fun heq => hslot (by rw [heq])
    have hne' : seqNum.toNat + buffer.capacity ≠ stored.toNat := fun heq =>
      hslot (by rw [← heq, Nat.add_mod_right])
    have hsameWindow : InWindow buffer.capacity stored.toNat seqNum.toNat ↔
        InWindow buffer.capacity sent.length seqNum.toNat := by
      simp only [InWindow]
      omega
    by_cases hin : InWindow buffer.capacity sent.length seqNum.toNat
    · rw [if_pos hin, if_pos (hsameWindow.mpr hin), original_append_of_le hin.2.1]
    · rw [if_neg hin, if_neg fun h => hin (hsameWindow.mp h)]

theorem original_of_le {sent : List (List UInt8)} {seqNum : Nat} (hpos : 1 ≤ seqNum)
    (hle : seqNum ≤ sent.length) :
    original sent seqNum = some (sent[seqNum - 1]) := by
  cases seqNum with
  | zero => contradiction
  | succ k => exact List.getElem?_eq_getElem (by omega)

theorem original_isSome {sent : List (List UInt8)} {seqNum : Nat} :
    (original sent seqNum).isSome ↔ 1 ≤ seqNum ∧ seqNum ≤ sent.length := by
  cases seqNum with
  | zero => simp [original]
  | succ k =>
      simp only [original, isSome_getElem?, Nat.succ_le_iff]
      omega

/-- A message is found exactly when its number is in the window. -/
theorem Retains.retrieve_isSome {buffer : RetransmitBuffer} {sent : List (List UInt8)}
    (hretains : buffer.Retains sent) (seqNum : UInt32) :
    (buffer.retrieve seqNum).isSome ↔
      InWindow buffer.capacity sent.length seqNum.toNat := by
  rw [hretains seqNum]
  by_cases hin : InWindow buffer.capacity sent.length seqNum.toNat
  · simp [hin, original_isSome, hin.1, hin.2.1]
  · simp [hin]

/-! ## Runs of messages -/

/-- Store messages under consecutive sequence numbers. -/
def storeFrom (buffer : RetransmitBuffer) : UInt32 → List (List UInt8) → RetransmitBuffer
  | _, [] => buffer
  | seqNum, data :: rest => (buffer.store seqNum data).storeFrom (seqNum + 1) rest

@[simp]
theorem capacity_storeFrom (buffer : RetransmitBuffer) (seqNum : UInt32)
    (messages : List (List UInt8)) :
    (buffer.storeFrom seqNum messages).capacity = buffer.capacity := by
  induction messages generalizing buffer seqNum with
  | nil => rfl
  | cons data rest ih => exact ih (buffer.store seqNum data) (seqNum + 1)

/-- Storing on from the next number moves the window over all of the messages. -/
theorem Retains.storeFrom {buffer : RetransmitBuffer} {sent messages : List (List UInt8)}
    (hretains : buffer.Retains sent) (hcapacity : 0 < buffer.capacity) {next : UInt32}
    (hnext : next = UInt32.ofNat (sent.length + 1))
    (hnonempty : ∀ data ∈ messages, data ≠ [])
    (hlength : sent.length + messages.length < 2 ^ 32) :
    (buffer.storeFrom next messages).Retains (sent ++ messages) := by
  induction messages generalizing buffer sent next with
  | nil => simpa [RetransmitBuffer.storeFrom] using hretains
  | cons data rest ih =>
      obtain ⟨hdata, hrest⟩ := List.forall_mem_cons.mp hnonempty
      rw [List.length_cons] at hlength
      have hstored : next.toNat = sent.length + 1 := by
        rw [hnext]
        exact UInt32.toNat_ofNat_of_lt' (show sent.length + 1 < 2 ^ 32 by omega)
      have hfirst := hretains.store hcapacity hstored hdata
      have hafter : next + 1 = UInt32.ofNat ((sent ++ [data]).length + 1) := by
        simp [hnext]
      have hall := ih hfirst hcapacity hafter hrest
        (by rw [List.length_append, List.length_singleton]; omega)
      rwa [List.append_assoc, List.singleton_append] at hall

/-- The ring of any capacity, filled to any level with the messages 1, 2, ...,
is a window of the latest of them: each is retrieved with its length, and no
other number retrieves anything. -/
theorem storeFrom_sliding_window (capacity : Nat) (hcapacity : 1 ≤ capacity)
    (messages : List (List UInt8)) (hlength : messages.length < 2 ^ 32)
    (hnonempty : ∀ data ∈ messages, data ≠ []) (seqNum : UInt32) :
    (RetransmitBuffer.storeFrom { capacity := capacity } 1 messages).retrieveOut seqNum =
      if h : max 1 ((messages.length : Int) - capacity + 1) ≤ seqNum.toNat ∧
          seqNum.toNat ≤ messages.length then
        (some messages[seqNum.toNat - 1], messages[seqNum.toNat - 1].length)
      else (none, 0) := by
  have hretains : (RetransmitBuffer.storeFrom { capacity := capacity } 1 messages).Retains
      ([] ++ messages) :=
    (retains_nil capacity).storeFrom hcapacity rfl hnonempty (by simpa using hlength)
  have hretrieve := hretains seqNum
  rw [List.nil_append, capacity_storeFrom] at hretrieve
  have hwindow : InWindow capacity messages.length seqNum.toNat ↔
      max 1 ((messages.length : Int) - capacity + 1) ≤ seqNum.toNat ∧
        seqNum.toNat ≤ messages.length := by
    simp only [InWindow]
    omega
  rw [retrieveOut_of_retrieve, hretrieve]
  by_cases hin : InWindow capacity messages.length seqNum.toNat
  · rw [if_pos hin, original_of_le hin.1 hin.2.1, dif_pos (hwindow.mp hin)]
  · rw [if_neg hin, dif_neg fun h => hin (hwindow.mpr h)]

theorem storeFrom_sliding_window_three :
    let buffer := RetransmitBuffer.storeFrom { capacity := 3 } 1 [[10], [20], [30], [40, 41], [50]]
    buffer.retrieveOut 4 = (some [40, 41], 2) ∧ buffer.retrieveOut 2 = (none, 0) := by
  have hwindow := storeFrom_sliding_window 3 (by decide) [[10], [20], [30], [40, 41], [50]]
    (by simp) (by simp)
  exact ⟨by simpa using hwindow 4, by simpa using hwindow 2⟩

end RetransmitBuffer

end SimCme
