import SealedMap.Json.StringText
import SealedMap.Proofs.Reading

/-!
# Strings between quotes

A character stands for itself between quotes unless it is a quote, a backslash or
a control character, which are escaped.  Writing and reading invert each other,
and reading a string looks at nothing behind its closing quote.
-/

namespace SealedMap
namespace Json

open Reading (Reads Local RefusesEmpty give fail andThen reads_give local_give local_fail)

/-! ## What is written -/

inductive ShortEscape : Char -> Char -> Prop where
  | quote : ShortEscape '"' '"'
  | backslash : ShortEscape '\\' '\\'
  | backspace : ShortEscape '\x08' 'b'
  | formFeed : ShortEscape '\x0c' 'f'
  | newline : ShortEscape '\n' 'n'
  | carriageReturn : ShortEscape '\r' 'r'
  | tab : ShortEscape '\t' 't'

def HexDigit (n : Nat) (digit : Char) : Prop :=
  ['0', '1', '2', '3', '4', '5', '6', '7', '8', '9', 'a', 'b', 'c', 'd', 'e', 'f'][n]? =
    some digit

inductive CharForm : Char -> List Char -> Prop where
  | plain {c : Char} : 0x20 ≤ c.toNat -> c ≠ '"' -> c ≠ '\\' -> CharForm c [c]
  | short {c letter : Char} : ShortEscape c letter -> CharForm c ['\\', letter]
  | numbered {c high low : Char} :
      c.toNat < 0x20 -> (forall letter, ¬ShortEscape c letter) ->
      HexDigit (c.toNat / 16) high -> HexDigit (c.toNat % 16) low ->
      CharForm c ['\\', 'u', '0', '0', high, low]

inductive InsideForm : List Char -> List Char -> Prop where
  | nil : InsideForm [] []
  | cons {c : Char} {chars form inside : List Char} :
      CharForm c form -> InsideForm chars inside -> InsideForm (c :: chars) (form ++ inside)

theorem hexDigit_hexDigit {n : Nat} (h : n < 16) :
    HexDigit n (hexDigit n) := by
  have hall : forall m, m < 16 ->
      ['0', '1', '2', '3', '4', '5', '6', '7', '8', '9', 'a', 'b', 'c', 'd', 'e', 'f'][m]? =
        some (hexDigit m) := by decide
  exact hall n h

theorem HexDigit.hexValue? {n : Nat} {digit : Char} (h : HexDigit n digit) :
    hexValue? digit = some n := by
  have hall : forall m, m < 16 -> Json.hexValue? (hexDigit m) = some m := by decide
  have hn : n < 16 := (List.getElem?_eq_some_iff.mp h).1
  have hsame : hexDigit n = digit := Option.some.inj ((hexDigit_hexDigit hn).symm.trans h)
  rw [← hsame]
  exact hall n hn

theorem charForm_escapeChar (c : Char) :
    CharForm c (escapeChar c) := by
  unfold escapeChar
  split
  · exact .short .quote
  · exact .short .backslash
  · exact .short .backspace
  · exact .short .formFeed
  · exact .short .newline
  · exact .short .carriageReturn
  · exact .short .tab
  next hquote hbackslash hbackspace hformFeed hnewline hreturn htab =>
    split
    next hcontrol =>
      have hlong : forall letter, ¬ShortEscape c letter := by
        intro letter hletter
        cases hletter with
        | quote => exact hquote rfl
        | backslash => exact hbackslash rfl
        | backspace => exact hbackspace rfl
        | formFeed => exact hformFeed rfl
        | newline => exact hnewline rfl
        | carriageReturn => exact hreturn rfl
        | tab => exact htab rfl
      exact .numbered hcontrol hlong (hexDigit_hexDigit (by omega)) (hexDigit_hexDigit (by omega))
    next hplain => exact .plain (Nat.le_of_not_lt hplain) hquote hbackslash

theorem insideForm_flatMap (chars : List Char) :
    InsideForm chars (chars.flatMap escapeChar) := by
  induction chars with
  | nil => exact .nil
  | cons c chars ih =>
      rw [List.flatMap_cons]
      exact .cons (charForm_escapeChar c) ih

/-! ## Pieces -/

theorem hasBytes_four (a b c d : Char) (tail : List Char) :
    hasBytes 4 (a :: b :: c :: d :: tail) = true := by
  have ha := a.utf8Size_pos
  have hb := b.utf8Size_pos
  have hc := c.utf8Size_pos
  have hd := d.utf8Size_pos
  simp only [hasBytes, List.take_succ_cons, List.take_zero, List.foldl_cons, List.foldl_nil]
  apply decide_eq_true
  omega

theorem readUnit_of_hexValue? {a b c d : Char} {x y z w : Nat} (ha : hexValue? a = some x)
    (hb : hexValue? b = some y) (hc : hexValue? c = some z) (hd : hexValue? d = some w) :
    Reads readUnit [a, b, c, d] (((x * 16 + y) * 16 + z) * 16 + w) := by
  intro tail
  simp only [List.cons_append, List.nil_append, readUnit, hasBytes_four, if_true, ha, hb, hc, hd]

theorem local_readUnit :
    Local readUnit := by
  intro text n rest h
  unfold readUnit at h
  split at h
  next =>
    split at h
    next a b c d more _ =>
      split at h
      next x y z w ha hb hc hd =>
        cases h
        exact ⟨[a, b, c, d], rfl, readUnit_of_hexValue? ha hb hc hd⟩
      next => cases h
    next => cases h
  next => cases h

theorem readTrailing_eq (leading : Nat) (text : List Char) :
    readTrailing leading ('\\' :: 'u' :: text) =
      match readUnit text with
      | .error fault => .error fault
      | .ok (unit, rest) =>
          if 0xdc00 ≤ unit ∧ unit ≤ 0xdfff then
            .ok (.char (Char.ofNat
              (0x10000 + (leading - 0xd800) * 0x400 + (unit - 0xdc00))), rest)
          else .error .malformed := rfl

theorem local_readTrailing (leading : Nat) :
    Local (readTrailing leading) := by
  intro text piece rest h
  unfold readTrailing at h
  split at h
  next => cases h
  next => cases h
  next _ more =>
    cases hunit : readUnit more with
    | error fault =>
        rw [hunit] at h
        cases h
    | ok taken =>
        rcases taken with ⟨unit, after⟩
        rw [hunit] at h
        dsimp only at h
        split at h
        next hrange =>
          cases h
          rcases local_readUnit _ _ _ hunit with ⟨used, rfl, hused⟩
          refine ⟨'\\' :: 'u' :: used, rfl, ?_⟩
          intro tail
          rw [List.cons_append, List.cons_append, readTrailing_eq, hused tail]
          dsimp only
          rw [if_pos hrange]
        next => cases h
  next => cases h

def afterUnit (unit : Nat) : Reading.Reader Char Fault Piece :=
  if 0xdc00 ≤ unit ∧ unit ≤ 0xdfff then fail .malformed
  else if 0xd800 ≤ unit ∧ unit ≤ 0xdbff then readTrailing unit
  else give (.char (Char.ofNat unit))

theorem readNumbered_eq :
    readNumbered = andThen readUnit afterUnit := by
  funext text
  unfold readNumbered andThen
  rcases readUnit text with fault | ⟨unit, rest⟩
  · rfl
  · dsimp only
    rw [afterUnit]
    simp only [apply_ite (fun read : Reading.Reader Char Fault Piece => read rest),
      give, fail]

theorem local_readNumbered :
    Local readNumbered := by
  rw [readNumbered_eq]
  refine local_readUnit.andThen fun unit => .ite (local_fail _) (.ite ?_ ?_)
  · exact local_readTrailing unit
  · exact local_give _

theorem local_readEscape :
    Local readEscape := by
  intro text piece rest h
  unfold readEscape at h
  split at h
  case h_10 more =>
    rcases local_readNumbered _ _ _ h with ⟨used, rfl, hused⟩
    exact ⟨'u' :: used, rfl, hused⟩
  all_goals
    first
    | cases h
      exact ⟨[_], rfl, fun _ => rfl⟩
    | cases h

theorem readPiece_of_plain {c : Char} (hcontrol : 0x20 ≤ c.toNat) (hquote : c ≠ '"')
    (hbackslash : c ≠ '\\') :
    Reads readPiece [c] (.char c) := by
  intro tail
  rw [List.singleton_append, readPiece.eq_4 c tail hquote hbackslash,
    if_neg (Nat.not_lt_of_le hcontrol)]

theorem local_readPiece :
    Local readPiece := by
  intro text piece rest h
  unfold readPiece at h
  split at h
  next => cases h
  next rest =>
    cases h
    exact ⟨['"'], rfl, fun _ => rfl⟩
  next more =>
    rcases local_readEscape _ _ _ h with ⟨used, rfl, hused⟩
    exact ⟨'\\' :: used, rfl, hused⟩
  next c more hquote hbackslash =>
    split at h
    next => cases h
    next hcontrol =>
      cases h
      exact ⟨[c], rfl, readPiece_of_plain (Nat.le_of_not_lt hcontrol) hquote hbackslash⟩

theorem refusesEmpty_readPiece :
    RefusesEmpty readPiece := by
  intro piece rest h
  cases h

theorem CharForm.reads {c : Char} {form : List Char} (h : CharForm c form) :
    Reads readPiece form (.char c) := by
  cases h with
  | plain hcontrol hquote hbackslash => exact readPiece_of_plain hcontrol hquote hbackslash
  | short hletter =>
      intro tail
      cases hletter with
      | quote => rfl
      | backslash => rfl
      | backspace => rfl
      | formFeed => rfl
      | newline => rfl
      | carriageReturn => rfl
      | tab => rfl
  | @numbered high low hcontrol _ hhigh hlow =>
      have hzero : hexValue? '0' = some 0 := rfl
      have hunit := readUnit_of_hexValue? hzero hzero hhigh.hexValue? hlow.hexValue?
      have hsame : ((0 * 16 + 0) * 16 + c.toNat / 16) * 16 + c.toNat % 16 = c.toNat := by
        omega
      have hafter : afterUnit c.toNat = give (.char c) := by
        rw [afterUnit, if_neg (by omega), if_neg (by omega), Char.ofNat_toNat]
      have hnumbered : Reads readNumbered ['0', '0', high, low] (.char c) := by
        rw [readNumbered_eq]
        rw [hsame] at hunit
        exact hunit.andThen (hafter ▸ reads_give _)
      exact fun tail => hnumbered tail

/-! ## Whole strings -/

theorem readPieces_of_closing {text rest : List Char} (b : Char) (bound seen : List Char)
    (h : readPiece text = .ok (.closing, rest)) :
    readPieces (b :: bound) seen text = .ok (String.ofList seen.reverse, rest) := by
  rw [readPieces, h]

theorem readPieces_of_char {text rest : List Char} {c : Char} (b : Char)
    (bound seen : List Char) (h : readPiece text = .ok (.char c, rest)) :
    readPieces (b :: bound) seen text = readPieces bound (c :: seen) rest := by
  rw [readPieces, h]

theorem readPieces_of_error {text : List Char} {fault : Fault} (b : Char)
    (bound seen : List Char) (h : readPiece text = .error fault) :
    readPieces (b :: bound) seen text = .error fault := by
  rw [readPieces, h]

theorem exists_bound {α β : Type} {front back : List α} {bound : List β} (hfront : front ≠ [])
    (hbound : (front ++ back).length ≤ bound.length) :
    exists b more, bound = b :: more ∧ back.length ≤ more.length := by
  have hpos := List.length_pos_iff.mpr hfront
  rw [List.length_append] at hbound
  cases bound with
  | nil =>
      rw [List.length_nil] at hbound
      omega
  | cons b more =>
      rw [List.length_cons] at hbound
      exact ⟨b, more, rfl, by omega⟩

theorem InsideForm.readPieces {chars inside : List Char} (h : InsideForm chars inside)
    (bound seen tail : List Char) (hbound : (inside ++ '"' :: tail).length ≤ bound.length) :
    readPieces bound seen (inside ++ '"' :: tail) =
      .ok (String.ofList (seen.reverse ++ chars), tail) := by
  induction h generalizing bound seen with
  | nil =>
      rcases exists_bound (List.cons_ne_nil '"' []) hbound with ⟨b, more, rfl, _⟩
      rw [List.append_nil]
      exact readPieces_of_closing b more seen rfl
  | @cons c chars form inside hform _ ih =>
      have hreads := hform.reads
      rw [List.append_assoc] at hbound ⊢
      rcases exists_bound (hreads.ne_nil refusesEmpty_readPiece) hbound with
        ⟨b, more, rfl, hmore⟩
      rw [readPieces_of_char b more seen (hreads _), ih more (c :: seen) hmore,
        List.reverse_cons, List.append_assoc, List.singleton_append]

theorem reads_readStringBody {chars inside : List Char} (h : InsideForm chars inside) :
    Reads readStringBody (inside ++ ['"']) (String.ofList chars) := by
  intro tail
  rw [List.append_assoc, List.singleton_append, readStringBody]
  exact h.readPieces _ [] tail (Nat.le_refl _)

theorem exists_used_of_readPieces {bound seen text rest : List Char} {s : String}
    (h : readPieces bound seen text = .ok (s, rest)) :
    exists used, text = used ++ rest ∧
      forall enough tail : List Char, (used ++ tail).length ≤ enough.length ->
        readPieces enough seen (used ++ tail) = .ok (s, tail) := by
  induction bound generalizing seen text with
  | nil => cases h
  | cons b bound ih =>
      cases hpiece : readPiece text with
      | error fault =>
          rw [readPieces_of_error b bound seen hpiece] at h
          cases h
      | ok taken =>
          rcases taken with ⟨piece, after⟩
          rcases local_readPiece _ _ _ hpiece with ⟨front, rfl, hfront⟩
          have hne := hfront.ne_nil refusesEmpty_readPiece
          cases piece with
          | closing =>
              rw [readPieces_of_closing b bound seen hpiece] at h
              cases h
              refine ⟨front, rfl, ?_⟩
              intro enough tail henough
              rcases exists_bound hne henough with ⟨e, more, rfl, _⟩
              exact readPieces_of_closing e more seen (hfront tail)
          | char c =>
              rw [readPieces_of_char b bound seen hpiece] at h
              rcases ih h with ⟨back, rfl, hback⟩
              refine ⟨front ++ back, (List.append_assoc front back rest).symm, ?_⟩
              intro enough tail henough
              rw [List.append_assoc] at henough ⊢
              rcases exists_bound hne henough with ⟨e, more, rfl, hmore⟩
              rw [readPieces_of_char e more seen (hfront _)]
              exact hback more tail hmore

theorem local_readStringBody :
    Local readStringBody := by
  intro text s rest h
  rcases exists_used_of_readPieces h with ⟨used, htext, hused⟩
  exact ⟨used, htext, fun tail => hused _ tail (Nat.le_refl _)⟩

end Json
end SealedMap
