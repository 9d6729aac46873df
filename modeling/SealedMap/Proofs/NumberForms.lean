import SealedMap.Json.Forms
import SealedMap.Proofs.Reading

/-!
# Integers in decimal

An integer is written as its digits behind a minus if it is negative, without a
zero in front of other digits.  A number ends where something stands that cannot
go on with one, so reading one looks at the next character, and no further.
-/

namespace SealedMap
namespace Json

open Reading (Reads ReadsBefore Local Ahead RefusesEmpty give fail andThen andThen_of_ok peek
  local_give local_fail ahead_peek map_eq_andThen)

/-! ## What is written -/

structure DigitsForm (n : Nat) (digits : List Char) : Prop where
  ne_nil : digits ≠ []
  decimal : forall c, c ∈ digits -> isDigit c = true
  value : numberOfDigits digits = n
  alone_of_zero : forall rest, digits = '0' :: rest -> rest = []

inductive IntForm (n : Int64) : List Char -> Prop where
  | natural {digits : List Char} : 0 ≤ n.toInt -> DigitsForm n.toInt.toNat digits ->
      IntForm n digits
  | negative {digits : List Char} : n.toInt < 0 -> DigitsForm (-n.toInt).toNat digits ->
      IntForm n ('-' :: digits)

theorem alone_of_zero_toDigits (n : Nat) (rest : List Char)
    (h : Nat.toDigits 10 n = '0' :: rest) :
    rest = [] := by
  induction n using Nat.strongRecOn generalizing rest with
  | ind n ih =>
      rw [Nat.toDigits_eq_if (by decide)] at h
      split at h
      next =>
        injection h with _ hrest
        exact hrest.symm
      next hn =>
        -- the digits in front have no zero before others, and do not stand for zero
        cases hfront : Nat.toDigits 10 (n / 10) with
        | nil => exact absurd hfront Nat.toDigits_ne_nil
        | cons c front =>
            rw [hfront, List.cons_append] at h
            injection h with hc _
            subst hc
            have halone : front = [] := ih (n / 10) (by omega) front hfront
            have hvalue : Nat.ofDigitChars 10 (Nat.toDigits 10 (n / 10)) 0 = n / 10 :=
              Nat.ofDigitChars_ten_toDigits
            rw [hfront, halone] at hvalue
            have hzero : Nat.ofDigitChars 10 ['0'] 0 = 0 := rfl
            omega

theorem digitsForm_toDigits (n : Nat) :
    DigitsForm n (Nat.toDigits 10 n) where
  ne_nil := Nat.toDigits_ne_nil
  decimal _ hc := Nat.isDigit_of_mem_toDigits (by decide) (by decide) hc
  value := Nat.ofDigitChars_ten_toDigits
  alone_of_zero := alone_of_zero_toDigits n

theorem intForm_writeInt (n : Int64) :
    IntForm n (writeInt n) := by
  rw [writeInt, Int.toString_eq_repr]
  by_cases hsign : 0 ≤ n.toInt
  case pos =>
    rcases Int.eq_ofNat_of_zero_le hsign with ⟨m, hm⟩
    have htext : n.toInt.repr.toList = Nat.toDigits 10 n.toInt.toNat := by
      rw [hm]
      exact Nat.toList_repr
    rw [htext]
    exact .natural hsign (digitsForm_toDigits _)
  case neg =>
    rcases Int.eq_negSucc_of_lt_zero (Int.not_le.mp hsign) with ⟨m, hm⟩
    have htext : n.toInt.repr.toList = '-' :: Nat.toDigits 10 (-n.toInt).toNat := by
      rw [hm, Int.neg_negSucc, Int.toNat_natCast, Int.repr, String.toList_append,
        Nat.toList_repr]
      rfl
    rw [htext]
    exact .negative (Int.not_le.mp hsign) (digitsForm_toDigits _)

/-! ## Digits -/

theorem readsBefore_readDigits {digits : List Char} {next : Char} (hne : digits ≠ [])
    (hdigits : forall c, c ∈ digits -> isDigit c = true) (hnext : isDigit next = false) :
    ReadsBefore readDigits digits digits next := by
  intro tail
  have htake : (digits ++ next :: tail).takeWhile isDigit = digits := by
    rw [List.takeWhile_append_of_pos hdigits, List.takeWhile_cons_of_neg (by simp [hnext]),
      List.append_nil]
  have hdrop : (digits ++ next :: tail).dropWhile isDigit = next :: tail := by
    rw [List.dropWhile_append_of_pos hdigits, List.dropWhile_cons_of_neg (by simp [hnext])]
  cases digits with
  | nil => exact absurd rfl hne
  | cons c digits =>
      have hc : isDigit c = true := hdigits c List.mem_cons_self
      rw [List.cons_append] at htake hdrop ⊢
      rw [readDigits, if_pos hc, htake, hdrop]

theorem exists_of_readDigits_eq_ok {text digits rest : List Char}
    (h : readDigits text = .ok (digits, rest)) :
    text = digits ++ rest ∧ digits ≠ [] ∧ (forall c, c ∈ digits -> isDigit c = true) ∧
      forall next more, rest = next :: more -> isDigit next = false := by
  unfold readDigits at h
  split at h
  next => cases h
  next c more =>
    split at h
    next hc =>
      cases h
      refine ⟨List.takeWhile_append_dropWhile.symm, ?_, ?_, ?_⟩
      · rw [List.takeWhile_cons_of_pos hc]
        exact List.cons_ne_nil _ _
      · exact List.all_eq_true.mp List.all_takeWhile
      · intro next after hrest
        have hhead := List.head?_dropWhile_not isDigit (c :: more)
        rw [hrest] at hhead
        exact hhead
    next => cases h

theorem ahead_readDigits :
    Ahead readDigits := by
  intro text digits rest h
  rcases exists_of_readDigits_eq_ok h with ⟨htext, hne, hdigits, hends⟩
  refine ⟨digits, htext, ?_⟩
  intro next more hrest
  exact readsBefore_readDigits hne hdigits (hends next more hrest)

theorem readsBefore_readWhole {digits : List Char} {next : Char} (hne : digits ≠ [])
    (hdigits : forall c, c ∈ digits -> isDigit c = true)
    (hzero : forall rest, digits = '0' :: rest -> rest = []) (hnext : isDigit next = false) :
    ReadsBefore readWhole digits digits next := by
  intro tail
  have hplain := readsBefore_readDigits hne hdigits hnext tail
  rcases digits with _ | ⟨c, digits⟩
  · exact absurd rfl hne
  · by_cases hc : c = '0'
    · subst hc
      rw [hzero digits rfl]
      simp only [List.cons_append, List.nil_append, readWhole, hnext, List.tail_cons,
        Bool.false_eq_true, if_false]
    · rw [List.cons_append] at hplain ⊢
      rw [readWhole.eq_2 _ fun d more heq => hc (List.cons.inj heq).1]
      exact hplain

theorem ahead_readWhole :
    Ahead readWhole := by
  intro text digits rest h
  unfold readWhole at h
  split at h
  next c more =>
    split at h
    next => cases h
    next hc =>
      cases h
      refine ⟨['0'], rfl, ?_⟩
      intro next after hrest
      cases hrest
      have hdigit : forall d, d ∈ ['0'] -> isDigit d = true := by
        intro d hd
        rw [List.mem_singleton.mp hd]
        rfl
      exact readsBefore_readWhole (List.cons_ne_nil _ _) hdigit
        (fun _ hzero => (List.cons.inj hzero).2.symm) (Bool.eq_false_iff.mpr hc)
  next hnot =>
    rcases exists_of_readDigits_eq_ok h with ⟨rfl, hne, hdigits, hends⟩
    refine ⟨digits, rfl, ?_⟩
    intro next more hrest
    refine readsBefore_readWhole hne hdigits ?_ (hends next more hrest)
    intro front hfront
    subst hfront hrest
    cases front with
    | nil => rfl
    | cons d front => exact absurd rfl (hnot d (front ++ next :: more))

/-! ## Numbers -/

theorem ahead_readFraction :
    Ahead readFraction := by
  intro text digits rest h
  unfold readFraction at h
  split at h
  next more =>
    rcases ahead_readDigits _ _ _ h with ⟨used, rfl, hused⟩
    exact ⟨'.' :: used, rfl, fun next after hrest tail => hused next after hrest tail⟩
  next hnot =>
    cases h
    refine ⟨[], rfl, ?_⟩
    intro next more htext tail
    exact readFraction.eq_2 _ fun after heq =>
      hnot more (htext.trans (congrArg (· :: more) (List.cons.inj heq).1))

def sign : Reading.Reader Char Fault Bool := fun text =>
  .ok (readSign text)

theorem ahead_sign :
    Ahead sign := by
  intro text negative rest h
  rw [sign] at h
  have hsign := Except.ok.inj h
  unfold readSign at hsign
  split at hsign
  next more =>
    cases hsign
    exact ⟨['-'], rfl, fun _ _ _ _ => rfl⟩
  next more =>
    cases hsign
    exact ⟨['+'], rfl, fun _ _ _ _ => rfl⟩
  next hminus hplus =>
    cases hsign
    refine ⟨[], rfl, ?_⟩
    intro next more htext tail
    have heq := readSign.eq_3 (next :: tail)
      (fun after heq => hminus more (htext.trans (congrArg (· :: more) (List.cons.inj heq).1)))
      (fun after heq => hplus more (htext.trans (congrArg (· :: more) (List.cons.inj heq).1)))
    exact congrArg Except.ok heq

def exponentDigits : Reading.Reader Char Fault (Option (Bool × List Char)) :=
  andThen sign fun negative => andThen readDigits fun digits => give (some (negative, digits))

theorem readExponent_of_letter {c : Char} (hc : (c == 'e' || c == 'E') = true)
    (text : List Char) :
    readExponent (c :: text) = exponentDigits text := by
  rw [readExponent, if_pos hc, exponentDigits, andThen_of_ok rfl]
  exact congrFun (map_eq_andThen (fun digits => some ((readSign text).1, digits)) readDigits) _

theorem readExponent_of_other {c : Char} (hc : (c == 'e' || c == 'E') = false)
    (text : List Char) :
    readExponent (c :: text) = .ok (none, c :: text) := by
  rw [readExponent, if_neg (Bool.eq_false_iff.mp hc)]

theorem ahead_readExponent :
    Ahead readExponent := by
  intro text exponent rest h
  have hdigits : Ahead exponentDigits := ahead_sign.andThen fun _ => ahead_readDigits.map _
  cases text with
  | nil =>
      cases h
      exact ⟨[], rfl, fun _ _ hrest => nomatch hrest⟩
  | cons c text =>
      cases hc : c == 'e' || c == 'E' with
      | true =>
          rw [readExponent_of_letter hc] at h
          rcases hdigits _ _ _ h with ⟨used, rfl, hused⟩
          refine ⟨c :: used, rfl, ?_⟩
          intro next more hrest tail
          rw [List.cons_append, readExponent_of_letter hc]
          exact hused next more hrest tail
      | false =>
          rw [readExponent_of_other hc] at h
          cases h
          refine ⟨[], rfl, ?_⟩
          intro next more hrest tail
          rw [← (List.cons.inj hrest).1]
          exact readExponent_of_other hc tail

def minus : Reading.Reader Char Fault Bool
  | '-' :: rest => .ok (true, rest)
  | text => .ok (false, text)

theorem minus_of_ne {c : Char} (hc : c ≠ '-') (text : List Char) :
    minus (c :: text) = .ok (false, c :: text) :=
  minus.eq_2 _ fun _ heq => hc (List.cons.inj heq).1

theorem ahead_minus :
    Ahead minus := by
  intro text negative rest h
  unfold minus at h
  split at h
  next more =>
    cases h
    exact ⟨['-'], rfl, fun _ _ _ _ => rfl⟩
  next hnot =>
    cases h
    refine ⟨[], rfl, ?_⟩
    intro next more htext tail
    exact minus_of_ne (fun hnext => hnot more (htext.trans (congrArg (· :: more) hnext))) tail

theorem readNumberText_eq :
    readNumberText =
      andThen minus fun negative =>
        andThen readWhole fun whole =>
          andThen readFraction fun fraction =>
            andThen readExponent fun exponent =>
              give ⟨negative, whole, fraction, exponent⟩ := by
  funext text
  unfold readNumberText
  split
  next negative after hsign =>
    have hminus : minus text = .ok (negative, after) := by
      split at hsign
      next =>
        cases hsign
        rfl
      next hnot =>
        cases hsign
        exact minus.eq_2 _ hnot
    rw [andThen_of_ok hminus]
    unfold andThen
    rcases readWhole after with fault | ⟨whole, after⟩
    · rfl
    dsimp only
    rcases readFraction after with fault | ⟨fraction, after⟩
    · rfl
    dsimp only
    rcases readExponent after with fault | ⟨exponent, after⟩
    · rfl
    · rfl

def numberOf (parts : NumberText) : Reading.Reader Char Fault Number :=
  match parts.integer? with
  | some n => give (.integer n)
  | none =>
      match parts.float? with
      | some x => give (.float x)
      | none => fail .malformed

theorem readNumber_eq :
    readNumber = andThen readNumberText numberOf := by
  funext text
  unfold readNumber andThen
  rcases readNumberText text with fault | ⟨parts, rest⟩
  · rfl
  dsimp only
  rw [numberOf]
  rcases parts.integer? with _ | n
  · dsimp only
    rcases parts.float? with _ | x
    · rfl
    · rfl
  · rfl

def int64Of (number : Number) : Reading.Reader Char Fault Int64 :=
  match number.int64? with
  | some n => give n
  | none => fail .unfit

theorem readDigitsInt_eq :
    readDigitsInt = andThen readNumber int64Of := by
  funext text
  unfold readDigitsInt andThen
  rcases readNumber text with fault | ⟨number, rest⟩
  · rfl
  dsimp only
  rw [int64Of]
  rcases number.int64? with _ | n
  · rfl
  · rfl

theorem ahead_readNumber :
    Ahead readNumber := by
  rw [readNumber_eq, readNumberText_eq]
  refine Ahead.andThen ?_ fun parts => ?_
  · exact ahead_minus.andThen fun _ => ahead_readWhole.andThen fun _ =>
      ahead_readFraction.andThen fun _ => ahead_readExponent.map _
  · unfold numberOf
    split
    next => exact (local_give _).ahead
    next =>
      split
      next => exact (local_give _).ahead
      next => exact (local_fail _).ahead

theorem ahead_readDigitsInt :
    Ahead readDigitsInt := by
  rw [readDigitsInt_eq]
  refine ahead_readNumber.andThen fun number => ?_
  unfold int64Of
  split
  next => exact (local_give _).ahead
  next => exact (local_fail _).ahead

/-! ## Integers -/

/-- A character that cannot go on with a number. -/
structure Stops (c : Char) : Prop where
  digit : isDigit c = false
  fraction : c ≠ '.'
  exponent : (c == 'e' || c == 'E') = false

theorem DigitsForm.readNumberText {n : Nat} {digits : List Char} (h : DigitsForm n digits)
    {next : Char} (hnext : Stops next) (negative : Bool) (tail : List Char)
    {text : List Char} (hsign : minus text = .ok (negative, digits ++ next :: tail)) :
    readNumberText text = .ok (⟨negative, digits, [], none⟩, next :: tail) := by
  have hwhole := readsBefore_readWhole h.ne_nil h.decimal h.alone_of_zero hnext.digit tail
  have hfraction : readFraction (next :: tail) = .ok ([], next :: tail) :=
    readFraction.eq_2 _ fun _ heq => hnext.fraction (List.cons.inj heq).1
  rw [readNumberText_eq, andThen_of_ok hsign, andThen_of_ok hwhole, andThen_of_ok hfraction,
    andThen_of_ok (readExponent_of_other hnext.exponent tail)]
  rfl

theorem DigitsForm.exists_cons {n : Nat} {digits : List Char} (h : DigitsForm n digits) :
    exists c rest, digits = c :: rest ∧ isDigit c = true := by
  cases digits with
  | nil => exact absurd rfl h.ne_nil
  | cons c rest => exact ⟨c, rest, rfl, h.decimal c List.mem_cons_self⟩

theorem DigitsForm.no_minus {n : Nat} {digits : List Char} (h : DigitsForm n digits)
    (tail : List Char) :
    minus (digits ++ tail) = .ok (false, digits ++ tail) := by
  rcases h.exists_cons with ⟨c, rest, rfl, hc⟩
  apply minus_of_ne
  intro hminus
  subst hminus
  exact absurd hc (by decide)

theorem IntForm.exists_cons {n : Int64} {text : List Char} (h : IntForm n text) :
    exists c rest, text = c :: rest ∧ (c == '-' || isDigit c) = true := by
  cases h with
  | natural _ hdigits =>
      rcases hdigits.exists_cons with ⟨c, rest, htext, hc⟩
      exact ⟨c, rest, htext, by rw [hc, Bool.or_true]⟩
  | @negative digits _ _ => exact ⟨'-', digits, rfl, rfl⟩

theorem IntForm.exists_parts {n : Int64} {text : List Char} (h : IntForm n text) {next : Char}
    (hnext : Stops next) (tail : List Char) :
    exists parts, readNumberText (text ++ next :: tail) = .ok (parts, next :: tail) ∧
      parts.integer? = some n.toInt := by
  have hlow := n.le_toInt
  have hhigh := n.toInt_lt
  cases h with
  | natural hsign hdigits =>
      refine ⟨_, hdigits.readNumberText hnext false tail (hdigits.no_minus _), ?_⟩
      have hrange : n.toInt.toNat < 0x10000000000000000 := by omega
      simp only [NumberText.integer?, List.isEmpty_nil, Option.isNone_none, Bool.and_true,
        if_true, Bool.false_eq_true, if_false, hdigits.value, hrange,
        Int.toNat_of_nonneg hsign]
  | negative hsign hdigits =>
      refine ⟨_, hdigits.readNumberText hnext true tail rfl, ?_⟩
      have hrange : 0 < (-n.toInt).toNat ∧ (-n.toInt).toNat ≤ 0x8000000000000000 := by omega
      have hvalue : -((-n.toInt).toNat : Int) = n.toInt := by omega
      simp only [NumberText.integer?, List.isEmpty_nil, Option.isNone_none, Bool.and_true,
        if_true, hdigits.value, hrange, and_self, hvalue]

theorem int64?_integer (n : Int64) :
    (Number.integer n.toInt).int64? = some n := by
  have hlow := n.le_toInt
  have hhigh := n.toInt_lt
  rw [Number.int64?, if_pos (by omega), Int64.ofInt_toInt]

theorem IntForm.readsBefore {n : Int64} {text : List Char} (h : IntForm n text) {next : Char}
    (hnext : Stops next) :
    ReadsBefore readDigitsInt text n next := by
  intro tail
  rcases h.exists_parts hnext tail with ⟨parts, hparts, hinteger⟩
  have hnumber : readNumber (text ++ next :: tail) = .ok (.integer n.toInt, next :: tail) := by
    rw [readNumber_eq, andThen_of_ok hparts, numberOf, hinteger]
    rfl
  rw [readDigitsInt_eq, andThen_of_ok hnumber, int64Of, int64?_integer]
  rfl

end Json
end SealedMap
