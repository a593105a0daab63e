import BinDelegation.Proofs.Partition.Names

/-!
# Walks over the bins

A walk keeps nothing but the prefix that comes next. Whatever is asked of it, that prefix is the
first of a bin, or the end: so its answers, what is left behind them and the count of what is left
follow from how many bins were passed.

`At p m w` is the invariant, with the number `m` of bins that are behind. One step keeps it
(`At.next_cases`): at the end there is no next bin, before it the next one is bin `m`. Skipping some
and asking for the one behind them is a recursion on that step (`At.skip`, `At.nth`), and a request
of either kind is one of these (`call_eq_nth`). The run lemma is `At.after`, an induction on the
requests, where `m` grows by what each of them passes and stops at the number of bins.

All that a walk can be asked is read off `At` and put together in `Shows`: answers, the count that
is left with its bounds, the list of what is left, and the bins that come one after the other.
-/

namespace BinDelegation.BinWalk

/-- A request to a walk: for the next bin, or for the one behind some others. -/
inductive Call where
  | next
  | nth (skipped : Nat)

/-- How many bins stand before the one that is asked for. -/
def Call.skipped : Call → Nat
  | .next => 0
  | .nth skipped => skipped

/-- The answer to a request, and the walk behind it. -/
def call (w : BinWalk) : Call → Option Bin × BinWalk
  | .next =>
    match w.next? with
    | some (bin, w) => (some bin, w)
    | none => (none, w)
  | .nth skipped => w.nth skipped

/-- The walk behind a run of requests. -/
def after (w : BinWalk) (calls : List Call) : BinWalk := calls.foldl (fun w c => (w.call c).2) w

/-- How many bins a run of requests takes or leaves out, if there are so many. -/
def passed (calls : List Call) : Nat := (calls.map fun c => c.skipped + 1).sum

/-- The bins that come one after the other until there is none. -/
inductive Yields : BinWalk → List Bin → Prop where
  | nil {w : BinWalk} (h : w.next? = none) : Yields w []
  | cons {w w' : BinWalk} {bin : Bin} {bins : List Bin} (h : w.next? = some (bin, w'))
    (rest : Yields w' bins) : Yields w (bin :: bins)

/-- A walk that has some of the bins behind it: what comes next is the first prefix of a bin, or the
end of the prefixes. -/
structure At (p : Partition) (m : Nat) (w : BinWalk) : Prop where
  partition : w.partition = p
  le : m ≤ p.count
  nextLow : w.nextLow.toNat = m * p.binSize.toNat

/-- What a walk shows that has `m` of the bins behind it. -/
structure Shows (bins : List Bin) (m : Nat) (w : BinWalk) : Prop where
  answer : ∀ c, (w.call c).1 = bins[m + c.skipped]?
  length : w.length = bins.length - m
  sizeHint : w.sizeHint = (bins.length - m, some (bins.length - m))
  count : w.toList.length = bins.length - m
  toList : w.toList = bins.drop m
  yields : Yields w (bins.drop m)

variable {p : Partition} {m : Nat} {w : BinWalk}

/-- At first no bin is behind. -/
theorem at_start (p : Partition) : At p 0 (start p) where
  partition := rfl
  le := Nat.zero_le _
  nextLow := (Nat.zero_mul _).symm

/-! ## One step -/

/-- The prefixes are those of all bins. -/
theorem space_eq (p : Partition) : p.space.toNat = p.count * p.binSize.toNat := by
  rw [p.toNat_space, ← p.binSize_mul_count, Nat.mul_comm]

/-- Before the end the next bin comes, and is behind from then on. -/
theorem At.next?_of_lt (h : At p m w) (hm : m < p.count) :
    ∃ w', w.next? = some (p.binAt m, w') ∧ At p (m + 1) w' := by
  obtain ⟨rfl, hle, hlow⟩ := h
  have hend := w.partition.bin_le_prefixes hm
  have hprefixes := w.partition.prefixes_le
  have hpos := w.partition.binSize_pos
  have hbin : Bin.startingAt w.partition w.nextLow = w.partition.binAt m := by
    have hstart : w.nextLow = UInt64.ofNat m * w.partition.binSize :=
      UInt64.toNat_inj.1 (hlow.trans (w.partition.low_binAt hm).symm)
    rw [hstart]
    rfl
  -- A bin begins below the end of the prefixes and ends no later than they do, so nothing here
  -- passes 64 bits.
  have hinside : ¬w.partition.space ≤ w.nextLow := by
    rw [UInt64.le_iff_toNat_le, w.partition.toNat_space, hlow]
    omega
  refine ⟨{ w with nextLow := w.nextLow + w.partition.binSize },
    by rw [next?, if_neg hinside, hbin], rfl, hm, ?_⟩
  rw [UInt64.toNat_add, hlow, Nat.succ_mul]
  exact Nat.mod_eq_of_lt (by omega)

/-- At the end no bin comes. -/
theorem At.next?_at_end (h : At p p.count w) : w.next? = none := by
  obtain ⟨rfl, -, hlow⟩ := h
  rw [next?, if_pos]
  rw [UInt64.le_iff_toNat_le, space_eq, hlow]

/-- The next bin, if one is left, is the first of those that are not behind. -/
theorem At.next_cases (h : At p m w) :
    (m = p.count ∧ w.next? = none) ∨
      m < p.count ∧ ∃ w', w.next? = some (p.binAt m, w') ∧ At p (m + 1) w' := by
  rcases Nat.lt_or_eq_of_le h.le with hm | rfl
  · exact .inr ⟨hm, h.next?_of_lt hm⟩
  · exact .inl ⟨rfl, h.next?_at_end⟩

/-! ## Runs -/

/-- Skipping bins puts as many behind as are left, and no more. -/
theorem At.skip (h : At p m w) (n : Nat) : At p (min p.count (m + n)) (w.skip n) := by
  induction n generalizing m w with
  | zero =>
    rw [Nat.add_zero, Nat.min_eq_right h.le]
    exact h
  | succ n ih =>
    rw [BinWalk.skip]
    rcases h.next_cases with ⟨rfl, hnext⟩ | ⟨-, w', hnext, hw'⟩
    · rw [hnext, Nat.min_eq_left (Nat.le_add_right _ _)]
      exact h
    · rw [hnext, Nat.add_comm n 1, ← Nat.add_assoc]
      exact ih hw'

/-- A bin is asked for by the number of those before it. -/
theorem At.nth (h : At p m w) (n : Nat) :
    (w.nth n).1 = p.bins[m + n]? ∧ At p (min p.count (m + n + 1)) (w.nth n).2 := by
  rw [BinWalk.nth]
  -- After the skipping either all bins are behind, or the one asked for is next.
  rcases (h.skip n).next_cases with ⟨hend, hnext⟩ | ⟨hlt, w', hnext, hw'⟩
  · have hcount : p.count ≤ m + n := by omega
    simp only [hnext]
    rw [List.getElem?_eq_none (by rw [p.length_bins]; exact hcount),
      Nat.min_eq_left (Nat.le_succ_of_le hcount)]
    exact ⟨rfl, hend ▸ h.skip n⟩
  · have hmin : min p.count (m + n) = m + n := by omega
    rw [hmin] at hlt hnext hw'
    simp only [hnext]
    rw [p.getElem?_bins hlt, Nat.min_eq_right hlt]
    exact ⟨rfl, hw'⟩

/-- The next bin is the one that has no others before it. -/
theorem call_eq_nth (w : BinWalk) (c : Call) : w.call c = w.nth c.skipped := by
  cases c <;> rfl

/-- Behind a run of requests there are as many bins as they pass, if there are so many. -/
theorem At.after (h : At p m w) (calls : List Call) :
    At p (min p.count (m + passed calls)) (w.after calls) := by
  induction calls generalizing m w with
  | nil =>
    rw [show passed [] = 0 from rfl, Nat.add_zero, Nat.min_eq_right h.le]
    exact h
  | cons c calls ih =>
    have hstep := (h.nth c.skipped).2
    rw [← call_eq_nth] at hstep
    have hrest := ih hstep
    have hpassed : min p.count (m + passed (c :: calls))
        = min p.count (min p.count (m + c.skipped + 1) + passed calls) := by
      -- A request that ran into the end passes all that is left, and those behind it pass nothing.
      rw [passed, List.map_cons, List.sum_cons, ← passed]
      omega
    rw [hpassed]
    exact hrest

/-! ## What is left -/

/-- The count is that of the bins that are not behind. -/
theorem At.length (h : At p m w) : w.length = p.count - m := by
  obtain ⟨rfl, hle, hlow⟩ := h
  have hbound : w.nextLow ≤ w.partition.space := by
    rw [UInt64.le_iff_toNat_le, space_eq, hlow]
    exact Nat.mul_le_mul_right _ hle
  have hmin : min w.nextLow w.partition.space = w.nextLow := if_pos hbound
  rw [BinWalk.length, UInt64.toNat_div, hmin, UInt64.toNat_sub_of_le _ _ hbound, space_eq, hlow,
    ← Nat.sub_mul, Nat.mul_div_cancel _ w.partition.binSize_pos]

/-- The bins from a number on begin with the bin of that number. -/
theorem drop_bins_of_lt (hm : m < p.count) : p.bins.drop m = p.binAt m :: p.bins.drop (m + 1) := by
  obtain ⟨hlt, hbin⟩ := List.getElem?_eq_some_iff.1 (p.getElem?_bins hm)
  rw [List.drop_eq_getElem_cons hlt, hbin]

/-- What a walk takes are the first bins that are not behind. -/
theorem At.take (h : At p m w) (fuel : Nat) : w.take fuel = (p.bins.drop m).take fuel := by
  induction fuel generalizing m w with
  | zero => rfl
  | succ fuel ih =>
    rw [BinWalk.take]
    rcases h.next_cases with ⟨rfl, hnext⟩ | ⟨hlt, w', hnext, hw'⟩
    · rw [hnext, List.drop_eq_nil_of_le (Nat.le_of_eq p.length_bins)]
      rfl
    · rw [hnext, drop_bins_of_lt hlt, List.take_succ_cons, ← ih hw']

/-- A walk has the bins left that are not behind. -/
theorem At.toList (h : At p m w) : w.toList = p.bins.drop m := by
  rw [BinWalk.toList, h.take, h.partition]
  refine List.take_of_length_le ?_
  rw [List.length_drop, p.length_bins]
  exact Nat.sub_le _ _

/-- The bins that are not behind come one after the other, and then none. -/
theorem At.yields (h : At p m w) : Yields w (p.bins.drop m) := by
  -- The induction is on the number of bins that are left, as the walk itself has no end to see.
  induction hleft : p.count - m generalizing m w with
  | zero =>
    rcases h.next_cases with ⟨rfl, hnext⟩ | ⟨hlt, -⟩
    · rw [List.drop_eq_nil_of_le (Nat.le_of_eq p.length_bins)]
      exact .nil hnext
    · omega
  | succ left ih =>
    rcases h.next_cases with ⟨rfl, -⟩ | ⟨hlt, w', hnext, hw'⟩
    · omega
    · rw [drop_bins_of_lt hlt]
      exact .cons hnext (ih hw' (by omega))

/-- All that a walk shows follows from how many bins are behind. -/
theorem At.shows (h : At p m w) : Shows p.bins m w where
  answer c := by rw [call_eq_nth, (h.nth c.skipped).1]
  length := by rw [h.length, p.length_bins]
  sizeHint := by rw [BinWalk.sizeHint, h.length, p.length_bins]
  count := by rw [h.toList, List.length_drop]
  toList := h.toList
  yields := h.yields

/-! ## The end -/

/-- A request that has no answer leaves all bins behind. -/
theorem At.of_call_eq_none (h : At p m w) {c : Call} (hnone : (w.call c).1 = none) :
    At p p.count (w.call c).2 := by
  rw [call_eq_nth] at hnone ⊢
  obtain ⟨hanswer, hat⟩ := h.nth c.skipped
  have hend : p.count ≤ m + c.skipped := by
    rw [hanswer, List.getElem?_eq_none_iff, p.length_bins] at hnone
    exact hnone
  rwa [Nat.min_eq_left (Nat.le_succ_of_le hend)] at hat

/-- At the end nothing answers a request. -/
theorem At.call_at_end (h : At p p.count w) (c : Call) : (w.call c).1 = none := by
  rw [h.shows.answer, List.getElem?_eq_none_iff, p.length_bins]
  exact Nat.le_add_right _ _

/-- Once a request has no answer, none has. -/
theorem At.call_eq_none (h : At p m w) {c : Call} (hnone : (w.call c).1 = none)
    (later : List Call) (c' : Call) : ((w.after (c :: later)).call c').1 = none := by
  have hend := (h.of_call_eq_none hnone).after later
  rw [Nat.min_eq_left (Nat.le_add_right _ _)] at hend
  exact hend.call_at_end c'

theorem after_append (w : BinWalk) (calls later : List Call) :
    w.after (calls ++ later) = (w.after calls).after later := List.foldl_append

/-- A number of bins is accepted if it is a power of two up to the largest. The bins divide the
prefixes evenly, and whatever was asked of a walk over them, what it answers and what it has left is
told by how many bins are behind it. -/
theorem walk_tracks_bins (n : UInt32) :
    ((∃ p, Partition.ofCount n.toNat = .ok p) ↔ (∃ k, n.toNat = 2 ^ k) ∧ n.toNat ≤ 65536) ∧
    ∀ p, Partition.ofCount n.toNat = .ok p →
      p.binSize.toNat * n.toNat = p.space.toNat ∧
      p.bins.length = n.toNat ∧
      (∀ i b, p.bins[i]? = some b → b.low.toNat = i * p.binSize.toNat ∧
        b.high.toNat = (i + 1) * p.binSize.toNat - 1) ∧
      ∀ calls, Shows p.bins (min n.toNat (passed calls)) ((start p).after calls) ∧
        ∀ c, (((start p).after calls).call c).1 = none →
          ∀ later c', (((start p).after (calls ++ c :: later)).call c').1 = none := by
  refine ⟨Partition.exists_ofCount_eq_ok_iff, ?_⟩
  intro p hp
  have hcount := p.ofCount_eq_ok.1 hp
  rw [← hcount]
  refine ⟨by rw [space_eq, Nat.mul_comm], p.length_bins, ?_, ?_⟩
  · intro i b hb
    obtain ⟨hi, rfl⟩ := p.getElem?_bins_eq_some hb
    rw [Nat.succ_mul]
    exact ⟨p.low_binAt hi, p.high_binAt hi⟩
  · intro calls
    have hat := (at_start p).after calls
    rw [Nat.zero_add] at hat
    refine ⟨hat.shows, fun c hnone later c' => ?_⟩
    rw [after_append]
    exact hat.call_eq_none hnone later c'

/-- Of four bins one is left behind the first three, and none behind a request that goes past it. -/
theorem walk_tracks_bins_of_four : ∃ p, Partition.ofCount 4 = .ok p ∧
    ((start p).after [.next, .nth 1]).length = 1 ∧
    (((start p).after [.next, .nth 1]).call (.nth 5)).1 = none ∧
    (((start p).after [.next, .nth 1, .nth 5, .nth 0]).call .next).1 = none := by
  have hcount : Partition.ofCount 4 = .ok ⟨2, by decide⟩ := by decide +kernel
  obtain ⟨-, hwalk⟩ := walk_tracks_bins 4
  obtain ⟨-, hlength, -, hrun⟩ := hwalk _ hcount
  obtain ⟨hshows, hend⟩ := hrun [.next, .nth 1]
  have hnone : (((start ⟨2, by decide⟩).after [.next, .nth 1]).call (.nth 5)).1 = none := by
    rw [hshows.answer, List.getElem?_eq_none_iff, hlength]
    decide
  refine ⟨_, hcount, ?_, hnone, hend _ hnone [.nth 0] .next⟩
  rw [hshows.length, hlength]
  rfl

end BinDelegation.BinWalk
