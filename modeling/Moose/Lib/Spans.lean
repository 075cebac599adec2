import Moose.Lib.SeqNum

/-!
# Contiguous spans of sequence numbers

A queue whose entries each occupy some sequence numbers, one entry after the other. `Spans` reads
the entries as intervals of positions: the queue starts at position `a` and ends at position `x`.
The three operations a send queue needs are here: an entry is added at the end, entries are
rewritten in place without changing what they occupy, and a cumulative acknowledgement drops the
entries below it.
-/

set_option autoImplicit false

namespace Moose

variable {ε : Type}

/-- The entries occupy the positions from `a` to `x`, in order and without a gap. -/
def Spans (start : ε → SeqNum) (len : ε → Nat) (base : SeqNum) (x : Nat) : Nat → List ε → Prop
  | a, [] => a = x
  | a, e :: es => start e = SeqNum.pos base a ∧ 0 < len e ∧ Spans start len base x (a + len e) es

namespace Spans

variable {start : ε → SeqNum} {len : ε → Nat} {base : SeqNum} {x : Nat}

variable {a : Nat} {es : List ε} {e : ε}

theorem le (h : Spans start len base x a es) : a ≤ x := by
  induction es generalizing a with
  | nil => exact Nat.le_of_eq h
  | cons e es ih => exact Nat.le_trans (Nat.le_add_right _ _) (ih h.2.2)

theorem append (h : Spans start len base x a es)
    (hstart : start e = SeqNum.pos base x) (hlen : 0 < len e) :
    Spans start len base (x + len e) a (es ++ [e]) := by
  induction es generalizing a with
  | nil =>
    cases h
    exact ⟨hstart, hlen, rfl⟩
  | cons d es ih => exact ⟨h.1, h.2.1, ih h.2.2⟩

/-- Where the first part ends the second begins. -/
theorem append_inv {es fs : List ε} (h : Spans start len base x a (es ++ fs)) :
    Spans start len base x (a + (es.map len).sum) fs := by
  induction es generalizing a with
  | nil => exact h
  | cons e es ih =>
    rw [List.map_cons, List.sum_cons, ← Nat.add_assoc]
    exact ih h.2.2

theorem mem (h : Spans start len base x a es) (he : e ∈ es) :
    ∃ p, start e = SeqNum.pos base p ∧ a ≤ p ∧ p + len e ≤ x ∧ 0 < len e := by
  induction es generalizing a with
  | nil => cases he
  | cons d es ih =>
    rcases List.mem_cons.mp he with rfl | he
    · exact ⟨a, h.1, Nat.le_refl _, le h.2.2, h.2.1⟩
    obtain ⟨p, hp, hap, hpx⟩ := ih h.2.2 he
    exact ⟨p, hp, Nat.le_trans (Nat.le_add_right _ _) hap, hpx⟩

theorem isChain (h : Spans start len base x a es) :
    es.IsChain fun d e => start d + BitVec.ofNat 32 (len d) = start e := by
  induction es generalizing a with
  | nil => exact List.IsChain.nil
  | cons d es ih =>
    cases es with
    | nil => exact List.IsChain.singleton d
    | cons e es =>
      refine List.IsChain.cons_cons ?_ (ih h.2.2)
      rw [h.1, SeqNum.pos_add]
      exact h.2.2.1.symm

theorem getLast? (h : Spans start len base x a es)
    (he : es.getLast? = some e) : start e + BitVec.ofNat 32 (len e) = SeqNum.pos base x := by
  induction es generalizing a with
  | nil => cases he
  | cons d es ih =>
    cases es with
    | nil =>
      rw [List.getLast?_singleton, Option.some.injEq] at he
      subst he
      rw [h.1, SeqNum.pos_add, h.2.2]
    | cons c es => exact ih h.2.2 (by rwa [List.getLast?_cons_cons] at he)

def above (start : ε → SeqNum) (len : ε → Nat) (ack : SeqNum) (es : List ε) : List ε :=
  es.filter fun e => SeqNum.dist ack (start e + BitVec.ofNat 32 (len e)) < 0

/-- An acknowledgement in front of every end drops nothing. -/
theorem above_eq_self {a k : Nat} (h : Spans start len base x a es)
    (hk : k ≤ a) (hnear : x < k + 2 ^ 31) : above start len (SeqNum.pos base k) es = es := by
  unfold above
  rw [List.filter_eq_self]
  intro e he
  obtain ⟨p, hp, hap, hpx, hlen⟩ := h.mem he
  rw [decide_eq_true_iff, hp, SeqNum.pos_add, SeqNum.dist_pos base (by omega) (by omega)]
  omega

/-- **A cumulative acknowledgement** of position `k` keeps the entries from the one that covers
`k` on. -/
theorem drain {k : Nat} :
    ∀ {a : Nat} {es : List ε}, Spans start len base x a es → a ≤ k → k ≤ x → x < a + 2 ^ 31 →
      ∃ a', a ≤ a' ∧ a' ≤ k ∧
        Spans start len base x a' (above start len (SeqNum.pos base k) es) ∧
        ∀ e es', above start len (SeqNum.pos base k) es = e :: es' → k < a' + len e := by
  intro a es
  induction es generalizing a with
  | nil =>
    intro h hak hkx _
    exact ⟨a, Nat.le_refl _, hak, h, fun e es' heq => by cases heq⟩
  | cons d es ih =>
    intro h hak hkx hnear
    have hx := h.2.2.le
    have hdist : SeqNum.dist (SeqNum.pos base k) (start d + BitVec.ofNat 32 (len d)) =
        (k : Int) - (a + len d : Nat) := by
      rw [h.1, SeqNum.pos_add, SeqNum.dist_pos base (by omega) (by omega)]
    by_cases hin : k < a + len d
    · -- the entry that covers `k`: it stays, and so does everything behind it
      have hrest := above_eq_self h.2.2 (Nat.le_of_lt hin) (by omega)
      have hself : above start len (SeqNum.pos base k) (d :: es) = d :: es := by
        unfold above at hrest ⊢
        rw [List.filter_cons_of_pos (by rw [decide_eq_true_iff, hdist]; omega), hrest]
      rw [hself]
      refine ⟨a, Nat.le_refl _, hak, h, ?_⟩
      intro e es' heq
      cases heq
      exact hin
    · have hdrop : above start len (SeqNum.pos base k) (d :: es) =
          above start len (SeqNum.pos base k) es := by
        unfold above
        rw [List.filter_cons_of_neg (by rw [decide_eq_true_iff, hdist]; omega)]
      obtain ⟨a', h1, h2, h3, h4⟩ := ih h.2.2 (by omega) hkx (by omega)
      rw [hdrop]
      exact ⟨a', by omega, h2, h3, h4⟩

end Spans
end Moose
