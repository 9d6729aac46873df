import SealedMap.Binary.MapForm
import SealedMap.Json.MapForm
import SealedMap.Proofs.KindForms
import SealedMap.Proofs.KindLayouts
import SealedMap.Proofs.Streams

/-!
# Streams of pairs

The pairs that a persisted form of a map holds one after the other, and how
reading them ended.  In bytes their number stands in front of them; in text they
go on up to a brace.  Nothing is said here of keys that repeat.
-/

namespace SealedMap

open Reading (Reads ReadsBefore Local Ahead Takes Streams give andThen andThen_of_ok
  andThen_of_error andThen_assoc onward peek local_give ahead_peek exists_of_andThen_eq_ok
  exists_streams)

variable {K V : Type}

/-! ## In bytes -/

namespace Binary

variable {convention : Convention} [Laid K] [Laid V]

theorem readPair_eq :
    (readPair convention : Reader (K × V)) =
      andThen (Laid.decode convention) fun key =>
        andThen (Laid.decode convention) fun value => give (key, value) := by
  funext bytes
  unfold readPair andThen
  rcases (Laid.decode convention : Reader K) bytes with fault | ⟨key, rest⟩
  · rfl
  · dsimp only
    rcases (Laid.decode convention : Reader V) rest with fault | ⟨value, rest⟩
    · rfl
    · rfl

theorem readPairsFrom_succ (count : Nat) (seen : List (K × V)) :
    readPairsFrom convention (count + 1) seen =
      andThen (readPair convention) fun pair =>
        readPairsFrom convention count (pair :: seen) := by
  funext bytes
  unfold readPairsFrom andThen
  rcases (readPair convention : Reader (K × V)) bytes with fault | ⟨pair, rest⟩
  · rfl
  · rfl

theorem readPairs_eq :
    (readPairs convention : Reader (List (K × V))) =
      andThen (readNat convention) fun count => readPairsFrom convention count [] := by
  funext bytes
  unfold readPairs andThen
  rcases readNat convention bytes with fault | ⟨count, rest⟩
  · rfl
  · rfl

variable (K V) in
def pairStep (convention : Convention) :
    Nat -> Reading.Reader UInt8 Fault (Option ((K × V) × Nat))
  | 0 => give none
  | count + 1 => andThen (readPair convention) fun pair => give (some (pair, count))

/-- The pairs that bytes hold, and what follows them or the fault that was met. -/
inductive PairStream (convention : Convention) (bytes : List UInt8) :
    List (K × V) -> Except Fault (List UInt8) -> Prop where
  | uncounted {fault : Fault} : readNat convention bytes = .error fault ->
      PairStream convention bytes [] (.error fault)
  | counted {count : Nat} {after : List UInt8} {pairs : List (K × V)}
      {ending : Except Fault (List UInt8)} :
      readNat convention bytes = .ok (count, after) ->
      Streams (pairStep K V convention) count after pairs ending ->
      PairStream convention bytes pairs ending

theorem lt_of_pairStep {count left : Nat} {bytes after : List UInt8} {pair : K × V}
    (h : pairStep K V convention count bytes = .ok (some (pair, left), after)) :
    left < count := by
  cases count with
  | zero => cases h
  | succ count =>
      rcases exists_of_andThen_eq_ok h with ⟨_, _, _, hgive⟩
      cases hgive
      exact Nat.lt_succ_self _

theorem exists_pairStream (convention : Convention) (bytes : List UInt8) :
    exists (pairs : List (K × V)) (ending : Except Fault (List UInt8)),
      PairStream convention bytes pairs ending := by
  cases hcount : readNat convention bytes with
  | error fault => exact ⟨[], _, .uncounted hcount⟩
  | ok taken =>
      rcases taken with ⟨count, after⟩
      have hless : forall left items (pair : K × V) left' after,
          pairStep K V convention left items = .ok (some (pair, left'), after) -> left' < left :=
        fun _ _ _ _ _ => lt_of_pairStep
      rcases exists_streams (fun left _ => left) hless count after with ⟨pairs, ending, h⟩
      exact ⟨pairs, ending, .counted hcount h⟩

theorem readPairsFrom_eq (count : Nat) (seen : List (K × V)) :
    readPairsFrom convention count seen =
      andThen (pairStep K V convention count) (onward (readPairsFrom convention) seen) := by
  cases count with
  | zero => rfl
  | succ count =>
      rw [readPairsFrom_succ, pairStep, andThen_assoc]
      rfl

theorem readPairsFrom_of_streams {count : Nat} {bytes : List UInt8} {pairs : List (K × V)}
    {ending : Except Fault (List UInt8)}
    (h : Streams (pairStep K V convention) count bytes pairs ending) (seen : List (K × V)) :
    readPairsFrom convention count seen bytes =
      ending.map fun rest => (seen.reverse ++ pairs, rest) := by
  induction h generalizing seen with
  | fails hstep =>
      rw [readPairsFrom_eq, andThen_of_error hstep]
      rfl
  | ends hstep =>
      rw [readPairsFrom_eq, andThen_of_ok hstep, List.append_nil]
      rfl
  | @next count left bytes after pair pairs ending hstep _ ih =>
      rw [readPairsFrom_eq, andThen_of_ok hstep, onward, ih, List.reverse_cons,
        List.append_assoc, List.singleton_append]

theorem PairStream.readPairs {bytes : List UInt8} {pairs : List (K × V)}
    {ending : Except Fault (List UInt8)} (h : PairStream convention bytes pairs ending) :
    readPairs convention bytes = ending.map fun rest => (pairs, rest) := by
  cases h with
  | uncounted hcount =>
      rw [readPairs_eq, andThen_of_error hcount]
      rfl
  | counted hcount hpairs =>
      rw [readPairs_eq, andThen_of_ok hcount]
      exact readPairsFrom_of_streams hpairs []

section Lawful

variable [LawfulLaid K] [LawfulLaid V]

theorem local_readPair (convention : Convention) :
    Local (readPair convention : Reader (K × V)) := by
  rw [readPair_eq]
  exact (LawfulLaid.local_decode convention).andThen fun _ =>
    (LawfulLaid.local_decode convention).map _

theorem local_pairStep (count : Nat) :
    Local (pairStep K V convention count) := by
  cases count with
  | zero => exact local_give none
  | succ count => exact (local_readPair convention).map _

theorem PairStream.exists_used {bytes rest : List UInt8} {pairs : List (K × V)}
    (h : PairStream convention bytes pairs (.ok rest)) :
    exists used, bytes = used ++ rest ∧
      forall tail, PairStream convention (used ++ tail) pairs (.ok tail) := by
  cases h with
  | counted hcount hpairs =>
      rcases local_readNat convention _ _ _ hcount with ⟨front, rfl, hfront⟩
      rcases hpairs.exists_used local_pairStep with ⟨back, rfl, hback⟩
      refine ⟨front ++ back, (List.append_assoc front back rest).symm, ?_⟩
      intro tail
      rw [List.append_assoc]
      exact .counted (hfront (back ++ tail)) (hback tail)

end Lawful
end Binary

/-! ## In text -/

namespace Json

variable [Name K] [Value V]

def comma (first : Bool) : Reading.Reader Char Fault Unit :=
  if first then give () else mark .truncated ','

def readQuoted : Reader (K × V) :=
  andThen blanks fun _ => andThen (mark .truncated '"') fun _ => readMember

variable (K V) in
def memberStep (first : Bool) : Reading.Reader Char Fault (Option ((K × V) × Bool)) :=
  andThen blanks fun _ => andThen (peek .truncated) fun c =>
    if c = '\x7d' then andThen (mark .truncated '\x7d') fun _ => give none
    else andThen (comma first) fun _ => andThen readQuoted fun pair => give (some (pair, false))

/-- The members behind an opening brace, and what follows the closing one or a fault. -/
def MemberStream (text : List Char) (pairs : List (K × V)) (ending : Except Fault (List Char)) :
    Prop :=
  Streams (memberStep K V) true text pairs ending

theorem readColon_eq (text : List Char) :
    (readColon text).map (fun rest => ((), rest)) =
      andThen blanks (fun _ => mark .truncated ':') text := by
  rw [readColon, andThen_of_ok rfl]
  cases skipBlank text with
  | nil => rfl
  | cons c rest =>
      by_cases hc : c = ':'
      case pos =>
        subst hc
        rfl
      case neg =>
        rw [mark, if_neg hc]
        split
        next heq => cases heq
        next heq => exact absurd (List.cons.inj heq).1 hc
        next => rfl

theorem readOpening_eq (text : List Char) :
    (readOpening text).map (fun rest => ((), rest)) =
      andThen blanks (fun _ => mark .truncated '"') text := by
  rw [readOpening, andThen_of_ok rfl]
  cases skipBlank text with
  | nil => rfl
  | cons c rest =>
      by_cases hc : c = '"'
      case pos =>
        subst hc
        rfl
      case neg =>
        rw [mark, if_neg hc]
        split
        next heq => cases heq
        next heq => exact absurd (List.cons.inj heq).1 hc
        next => rfl

theorem readMember_eq :
    (readMember : Reader (K × V)) =
      andThen Name.readName fun key =>
        andThen (andThen blanks fun _ => mark .truncated ':') fun _ =>
          andThen Value.readValue fun value => give (key, value) := by
  funext text
  unfold readMember
  rw [andThen]
  rcases (Name.readName : Reader K) text with fault | ⟨key, rest⟩
  · rfl
  dsimp only
  rw [andThen, ← readColon_eq]
  rcases readColon rest with fault | rest
  · rfl
  dsimp only [Except.map]
  rw [andThen]
  rcases (Value.readValue : Reader V) rest with fault | ⟨value, rest⟩
  · rfl
  · rfl

theorem readQuoted_eq (text : List Char) :
    (readQuoted : Reader (K × V)) text =
      match readOpening text with
      | .error fault => .error fault
      | .ok rest => readMember rest := by
  have hopening := readOpening_eq text
  rw [readQuoted, ← andThen_assoc, andThen, ← hopening]
  rcases readOpening text with fault | rest
  · rfl
  · rfl

theorem comma_cons (first : Bool) (c : Char) (rest : List Char) :
    comma first (c :: rest) =
      if c != ',' && !first then .error .malformed
      else .ok ((), if first then c :: rest else rest) := by
  cases first with
  | true =>
      rw [Bool.not_true, Bool.and_false]
      rfl
  | false =>
      by_cases hc : c = ','
      case pos =>
        subst hc
        rfl
      case neg =>
        rw [Bool.not_false, Bool.and_true, if_pos (bne_iff_ne.mpr hc)]
        exact if_neg hc

theorem readMembers_cons (b : Char) (bound : List Char) (seen : List (K × V)) :
    readMembers (b :: bound) seen =
      andThen (memberStep K V seen.isEmpty) (onward (fun _ => readMembers bound) seen) := by
  funext text
  rw [readMembers, memberStep, andThen_assoc, andThen_of_ok rfl]
  cases skipBlank text with
  | nil => rfl
  | cons c rest =>
      dsimp only
      rw [andThen_assoc, andThen_of_ok rfl]
      by_cases hclosing : c = '\x7d'
      case pos =>
        subst hclosing
        rfl
      case neg =>
        rw [if_neg (mt beq_iff_eq.mp hclosing), if_neg hclosing, andThen_assoc, andThen,
          comma_cons]
        split
        next => rfl
        next =>
          dsimp only
          rw [andThen_assoc, andThen, readQuoted_eq]
          rcases readOpening _ with fault | rest
          · rfl
          dsimp only
          rcases (readMember : Reader (K × V)) rest with fault | ⟨pair, rest⟩
          · rfl
          · rfl

/-! ### The members of a text -/

theorem takes_mark (atEnd : Fault) (c : Char) :
    Takes (mark atEnd c) := by
  intro text a rest h
  cases text with
  | nil => cases h
  | cons d text =>
      rw [mark] at h
      split at h
      next =>
        cases h
        exact Nat.lt_succ_self _
      next => cases h

theorem ahead_comma (first : Bool) :
    Ahead (comma first) := by
  cases first with
  | true => exact (local_give ()).ahead
  | false => exact (local_mark _ _).ahead

theorem memberStep_cases {first : Bool} {text rest : List Char}
    {result : Option ((K × V) × Bool)} (h : memberStep K V first text = .ok (result, rest)) :
    (result = none ∧ skipBlank text = '\x7d' :: rest) ∨
      exists pair, result = some (pair, false) := by
  rcases exists_of_andThen_eq_ok h with ⟨_, between, hblanks, hpeek⟩
  rcases exists_of_andThen_eq_ok hpeek with ⟨c, between', hc, hmember⟩
  cases hblanks
  cases hskip : skipBlank text with
  | nil =>
      rw [hskip] at hc
      cases hc
  | cons d after =>
      rw [hskip] at hc
      cases hc
      split at hmember
      next hclosing =>
        subst hclosing
        cases hmember
        exact Or.inl ⟨rfl, rfl⟩
      next =>
        rcases exists_of_andThen_eq_ok hmember with ⟨_, _, _, hquoted⟩
        rcases exists_of_andThen_eq_ok hquoted with ⟨pair, _, _, hgive⟩
        cases hgive
        exact Or.inr ⟨pair, rfl⟩

theorem exists_used_of_ends {first : Bool} {text rest : List Char}
    (h : memberStep K V first text = .ok (none, rest)) :
    exists used, used ≠ [] ∧ text = used ++ rest ∧ Reads (memberStep K V first) used none := by
  rcases memberStep_cases h with ⟨_, hskip⟩ | ⟨pair, hpair⟩
  · rcases exists_front_of_skipBlank hskip with ⟨front, htext, hfront⟩
    refine ⟨front ++ ['\x7d'], List.append_ne_nil_of_right_ne_nil _ (List.cons_ne_nil _ _),
      htext.trans (List.append_assoc front ['\x7d'] rest).symm, ?_⟩
    intro tail
    rw [List.append_assoc, List.singleton_append, memberStep, andThen_of_ok rfl, hfront tail]
    rfl
  · cases hpair

theorem eq_false_of_memberStep {first first' : Bool} {text after : List Char} {pair : K × V}
    (h : memberStep K V first text = .ok (some (pair, first'), after)) :
    first' = false := by
  rcases memberStep_cases h with ⟨hnone, _⟩ | ⟨_, hpair⟩
  · cases hnone
  · cases hpair
    rfl

section Lawful

variable [LawfulName K] [LawfulValue V]

theorem ahead_readMember :
    Ahead (readMember : Reader (K × V)) := by
  rw [readMember_eq]
  exact LawfulName.local_readName.ahead.andThen fun _ =>
    (ahead_blanks.andThen fun _ => (local_mark _ _).ahead).andThen fun _ =>
      LawfulValue.ahead_readValue.map _

theorem takes_readQuoted :
    Takes (readQuoted : Reader (K × V)) :=
  ahead_blanks.andThen_takes fun _ => (takes_mark _ _).andThen fun _ => ahead_readMember

theorem ahead_readQuoted :
    Ahead (readQuoted : Reader (K × V)) :=
  ahead_blanks.andThen fun _ => (local_mark _ _).ahead.andThen fun _ => ahead_readMember

theorem ahead_memberStep (first : Bool) :
    Ahead (memberStep K V first) := by
  refine ahead_blanks.andThen fun _ => (ahead_peek _).andThen fun c => ?_
  split
  next => exact (local_mark _ _).ahead.map _
  next => exact (ahead_comma first).andThen fun _ => ahead_readQuoted.map _

theorem takes_memberStep (first : Bool) :
    Takes (memberStep K V first) := by
  refine ahead_blanks.andThen_takes fun _ => (ahead_peek _).andThen_takes fun c => ?_
  split
  next => exact (takes_mark _ _).andThen fun _ => (local_give _).ahead
  next =>
    exact (ahead_comma first).andThen_takes fun _ =>
      takes_readQuoted.andThen fun _ => (local_give _).ahead

theorem exists_memberStream (text : List Char) :
    exists (pairs : List (K × V)) (ending : Except Fault (List Char)),
      MemberStream text pairs ending :=
  exists_streams (fun _ text => text.length)
    (fun first text _ _ after h => takes_memberStep first text _ after h) true text

theorem readMembers_of_streams {first : Bool} {text : List Char} {pairs : List (K × V)}
    {ending : Except Fault (List Char)} (h : Streams (memberStep K V) first text pairs ending)
    (bound : List Char) (hbound : text.length ≤ bound.length) (seen : List (K × V))
    (hseen : seen.isEmpty = first) :
    readMembers bound seen text = ending.map fun rest => (seen.reverse ++ pairs, rest) := by
  induction bound generalizing first text pairs seen with
  | nil =>
      rw [List.eq_nil_of_length_eq_zero (Nat.le_zero.mp hbound)] at h
      rcases h.step_cases with ⟨rfl, rfl⟩
      rfl
  | cons b bound ih =>
      rw [readMembers_cons, hseen]
      cases h with
      | fails hstep =>
          rw [andThen_of_error hstep]
          rfl
      | ends hstep =>
          rw [andThen_of_ok hstep, List.append_nil]
          rfl
      | @next _ first' _ after pair pairs _ hstep hrest =>
          have hless := takes_memberStep first text _ after hstep
          have hafter : after.length ≤ bound.length :=
            Nat.le_of_lt_succ (Nat.lt_of_lt_of_le hless hbound)
          have hfirst : (pair :: seen).isEmpty = first' := (eq_false_of_memberStep hstep).symm
          rw [andThen_of_ok hstep, onward, ih hrest hafter (pair :: seen) hfirst,
            List.reverse_cons, List.append_assoc, List.singleton_append]

theorem MemberStream.readObject {text inside : List Char} {pairs : List (K × V)}
    {ending : Except Fault (List Char)} (htext : skipBlank text = '\x7b' :: inside)
    (h : MemberStream inside pairs ending) :
    readObject text = ending.map fun rest => (pairs, rest) := by
  unfold Json.readObject
  rw [htext]
  exact readMembers_of_streams h inside (Nat.le_refl _) [] rfl

theorem MemberStream.exists_used {inside rest : List Char} {pairs : List (K × V)}
    (h : MemberStream inside pairs (.ok rest)) :
    exists used, inside = used ++ rest ∧
      forall tail, MemberStream (used ++ tail) pairs (.ok tail) := by
  rcases h.exists_used_of_ahead ahead_memberStep fun _ _ _ => exists_used_of_ends with
    ⟨used, _, hinside, hused⟩
  exact ⟨used, hinside, hused⟩

end Lawful

end Json
end SealedMap
