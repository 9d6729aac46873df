import SealedMap.Proofs.CoveredKinds
import SealedMap.Proofs.NumberForms
import SealedMap.Proofs.StringForms

/-!
# Names and values

Which text stands for a key or a value of each kind.  Writing gives this text
and reading takes it back; a name ends with its quote, and after a value no more
than the next character is looked at.
-/

namespace SealedMap
namespace Json

open Reading (Reads ReadsBefore Local Ahead RefusesEmpty give fail andThen andThen_of_ok peek
  local_give local_fail ahead_peek map_eq_andThen)

/-! ## Parts of the grammar -/

def blanks : Reading.Reader Char Fault Unit := fun text =>
  .ok ((), skipBlank text)

def mark (atEnd : Fault) (c : Char) : Reading.Reader Char Fault Unit
  | [] => .error atEnd
  | d :: rest => if d = c then .ok ((), rest) else .error .malformed

def word {α : Type} (chars : List Char) (a : α) : Reading.Reader Char Fault α := fun text =>
  (readWord chars text).map fun rest => (a, rest)

def misfit {α : Type} : Reading.Reader Char Fault α := fun text =>
  .error (mismatch text)

theorem skipBlank_cons {c : Char} (hc : isBlank c = false) (rest : List Char) :
    skipBlank (c :: rest) = c :: rest :=
  List.dropWhile_cons_of_neg (Bool.eq_false_iff.mp hc)

theorem blanks_cons {c : Char} (hc : isBlank c = false) (rest : List Char) :
    blanks (c :: rest) = .ok ((), c :: rest) :=
  congrArg (fun text => Except.ok ((), text)) (skipBlank_cons hc rest)

theorem ahead_blanks :
    Ahead blanks := by
  intro text a rest h
  cases h
  refine ⟨text.takeWhile isBlank, List.takeWhile_append_dropWhile.symm, ?_⟩
  intro next more hrest tail
  have hnext : isBlank next = false := by
    have hhead := List.head?_dropWhile_not isBlank text
    rw [← skipBlank, hrest] at hhead
    exact hhead
  have hskip : skipBlank (text.takeWhile isBlank ++ next :: tail) = next :: tail := by
    rw [skipBlank, List.dropWhile_append_of_pos (List.all_eq_true.mp List.all_takeWhile)]
    exact skipBlank_cons hnext tail
  rw [blanks, hskip]

theorem exists_front_of_skipBlank {text after : List Char} {c : Char}
    (h : skipBlank text = c :: after) :
    exists front, text = front ++ c :: after ∧
      forall tail, skipBlank (front ++ c :: tail) = c :: tail := by
  have hblanks : blanks text = .ok ((), c :: after) := by rw [blanks, h]
  rcases ahead_blanks _ _ _ hblanks with ⟨front, htext, hfront⟩
  refine ⟨front, htext, ?_⟩
  intro tail
  exact congrArg Prod.snd (Except.ok.inj (hfront c after rfl tail))

theorem reads_mark (atEnd : Fault) (c : Char) :
    Reads (mark atEnd c) [c] () :=
  fun _ => if_pos rfl

theorem local_mark (atEnd : Fault) (c : Char) :
    Local (mark atEnd c) := by
  intro text a rest h
  cases text with
  | nil => cases h
  | cons d text =>
      rw [mark] at h
      split at h
      next hd =>
        cases h
        subst hd
        exact ⟨[d], rfl, reads_mark atEnd d⟩
      next => cases h

theorem readWord_append (chars tail : List Char) :
    readWord chars (chars ++ tail) = .ok tail := by
  induction chars with
  | nil => rfl
  | cons c chars ih => rw [List.cons_append, readWord, if_pos (beq_self_eq_true c), ih]

theorem eq_append_of_readWord {chars text rest : List Char}
    (h : readWord chars text = .ok rest) :
    text = chars ++ rest := by
  induction chars generalizing text with
  | nil =>
      cases h
      rfl
  | cons c chars ih =>
      cases text with
      | nil => cases h
      | cons d text =>
          rw [readWord] at h
          split at h
          next hd => rw [eq_of_beq hd, ih h, List.cons_append]
          next => cases h

section Word

variable {α : Type}

theorem reads_word (chars : List Char) (a : α) :
    Reads (word chars a) chars a := by
  intro tail
  rw [word, readWord_append]
  rfl

theorem local_word (chars : List Char) (a : α) :
    Local (word chars a) := by
  intro text b rest h
  rw [word] at h
  cases hword : readWord chars text with
  | error fault =>
      rw [hword] at h
      cases h
  | ok after =>
      rw [hword] at h
      cases h
      exact ⟨chars, eq_append_of_readWord hword, reads_word chars a⟩

theorem local_misfit :
    Local (misfit : Reading.Reader Char Fault α) := by
  intro text a rest h
  cases h

end Word

/-! ## Integers -/

theorem readInt_eq :
    readInt =
      andThen blanks fun _ =>
        andThen (peek .truncated) fun c =>
          if c == '-' || isDigit c then readDigitsInt else misfit := by
  funext text
  rw [readInt, andThen_of_ok rfl]
  cases skipBlank text with
  | nil => rfl
  | cons c rest =>
      rw [andThen_of_ok rfl, startsNumber]
      split
      next => rfl
      next => rfl

theorem ahead_readInt :
    Ahead readInt := by
  rw [readInt_eq]
  refine ahead_blanks.andThen fun _ => (ahead_peek _).andThen fun c => ?_
  split
  next => exact ahead_readDigitsInt
  next => exact local_misfit.ahead

theorem isBlank_of_startsNumber {c : Char} (h : (c == '-' || isDigit c) = true) :
    isBlank c = false := by
  apply Bool.eq_false_iff.mpr
  intro hblank
  simp only [isBlank, Bool.or_eq_true, beq_iff_eq] at hblank
  rcases hblank with ((rfl | rfl) | rfl) | rfl
  all_goals exact absurd h (by decide)

theorem IntForm.readInt {n : Int64} {text : List Char} (h : IntForm n text) {next : Char}
    (hnext : Stops next) :
    ReadsBefore readInt text n next := by
  intro tail
  have hread := h.readsBefore hnext tail
  rcases h.exists_cons with ⟨c, rest, rfl, hc⟩
  rw [List.cons_append] at hread ⊢
  rw [readInt_eq, andThen_of_ok (blanks_cons (isBlank_of_startsNumber hc) _), andThen_of_ok rfl,
    if_pos hc]
  exact hread

theorem readIntName_eq :
    readIntName =
      andThen (peek .malformed) fun c =>
        if c == '-' || isDigit c then
          andThen readDigitsInt fun n => andThen (mark .malformed '"') fun _ => give n
        else fail .malformed := by
  funext text
  cases text with
  | nil => rfl
  | cons c rest =>
      rw [readIntName, andThen_of_ok rfl, startsNumber]
      split
      next =>
        unfold andThen
        rcases readDigitsInt (c :: rest) with fault | ⟨n, _ | ⟨d, rest⟩⟩
        · rfl
        · rfl
        · by_cases hd : d = '"'
          · subst hd
            rfl
          · dsimp only
            rw [mark, if_neg hd]
            split
            next heq => cases heq
            next heq => exact absurd (List.cons.inj (Prod.mk.inj (Except.ok.inj heq)).2).1 hd
            next => rfl
      next => rfl

theorem local_readIntName :
    Local readIntName := by
  have hclosing : forall n : Int64,
      Local (andThen (mark .malformed '"') fun _ => (give n : Reading.Reader Char Fault Int64)) :=
    fun n => (local_mark _ _).map fun _ => n
  have hnumber :
      Local (andThen readDigitsInt fun n => andThen (mark .malformed '"') fun _ => give n) :=
    ahead_readDigitsInt.andThen_local hclosing fun _ _ _ h => nomatch h
  rw [readIntName_eq]
  refine (ahead_peek _).andThen_local (fun c => .ite hnumber (local_fail _)) ?_
  intro c
  split
  next => exact fun _ _ h => nomatch h
  next => exact fun _ _ h => nomatch h

theorem IntForm.readIntName {n : Int64} {text : List Char} (h : IntForm n text) :
    Reads readIntName (text ++ ['"']) n := by
  intro tail
  have hquote : Stops '"' := ⟨rfl, by decide, rfl⟩
  have hread := h.readsBefore hquote tail
  rcases h.exists_cons with ⟨c, rest, rfl, hc⟩
  rw [List.append_assoc, List.singleton_append]
  rw [List.cons_append] at hread ⊢
  rw [readIntName_eq, andThen_of_ok rfl, if_pos hc, andThen_of_ok hread]
  rfl

/-! ## Strings and missing values -/

theorem readString_eq :
    readString =
      andThen blanks fun _ =>
        andThen (peek .truncated) fun c =>
          if c = '"' then andThen (mark .truncated '"') fun _ => readStringBody
          else misfit := by
  funext text
  rw [readString, andThen_of_ok rfl]
  cases skipBlank text with
  | nil => rfl
  | cons c rest =>
      rw [andThen_of_ok rfl]
      split
      next rest' heq =>
        cases heq
        rfl
      next hnot =>
        rw [if_neg fun hc => hnot rest (congrArg (· :: rest) hc)]
        rfl

theorem local_readString :
    Local readString := by
  have hbody : Local (andThen (mark .truncated '"') fun _ => readStringBody) :=
    (local_mark _ _).andThen fun _ => local_readStringBody
  rw [readString_eq]
  refine ahead_blanks.andThen_local (fun _ => ?_) fun _ _ _ h => nomatch h
  refine (ahead_peek _).andThen_local (fun c => .ite hbody local_misfit) ?_
  intro c
  split
  next => exact fun _ _ h => nomatch h
  next => exact fun _ _ h => nomatch h

theorem InsideForm.readString {chars inside : List Char} (h : InsideForm chars inside) :
    Reads readString ('"' :: (inside ++ ['"'])) (String.ofList chars) := by
  intro tail
  rw [List.cons_append, readString_eq, andThen_of_ok (blanks_cons rfl _), andThen_of_ok rfl,
    if_pos rfl, andThen_of_ok rfl]
  exact reads_readStringBody h tail

theorem readNullable_eq :
    readNullable =
      andThen blanks fun _ =>
        andThen (peek .truncated) fun c =>
          if c = 'n' then word ['n', 'u', 'l', 'l'] .nil
          else andThen readInt fun n => give (.some n) := by
  funext text
  rw [readNullable, andThen_of_ok rfl]
  cases skipBlank text with
  | nil => rfl
  | cons c rest =>
      rw [andThen_of_ok rfl]
      split
      next rest' heq =>
        cases heq
        rfl
      next hnot =>
        rw [if_neg fun hc => hnot rest (congrArg (· :: rest) hc)]
        exact congrFun (map_eq_andThen Nullable.some readInt) (c :: rest)

theorem ahead_readNullable :
    Ahead readNullable := by
  rw [readNullable_eq]
  refine ahead_blanks.andThen fun _ => (ahead_peek _).andThen fun c => ?_
  split
  next => exact (local_word _ _).ahead
  next => exact ahead_readInt.map _

theorem reads_null :
    Reads readNullable ['n', 'u', 'l', 'l'] .nil := by
  intro tail
  rw [readNullable_eq]
  rfl

theorem IntForm.readNullable {n : Int64} {text : List Char} (h : IntForm n text) {next : Char}
    (hnext : Stops next) :
    ReadsBefore readNullable text (.some n) next := by
  intro tail
  have hread := h.readInt hnext tail
  rcases h.exists_cons with ⟨c, rest, rfl, hc⟩
  have hn : c ≠ 'n' := by
    intro heq
    subst heq
    exact absurd hc (by decide)
  rw [List.cons_append] at hread ⊢
  rw [readNullable_eq, andThen_of_ok (blanks_cons (isBlank_of_startsNumber hc) _),
    andThen_of_ok rfl, if_neg hn, andThen_of_ok hread]
  rfl

/-! ## The kinds -/

inductive NameForm : {K : Type} -> K -> List Char -> Prop where
  | integer {n : Int64} {text : List Char} : IntForm n text ->
      NameForm n ('"' :: (text ++ ['"']))
  | text {s : String} {inside : List Char} : InsideForm s.toList inside ->
      NameForm s ('"' :: (inside ++ ['"']))
  | caseless {key : Caseless} {name : List Char} : NameForm key.text name -> NameForm key name
  | unhashed {key : Unhashed} {name : List Char} : NameForm key.number name ->
      NameForm key name

inductive ValueForm : {V : Type} -> V -> List Char -> Prop where
  | integer {n : Int64} {text : List Char} : IntForm n text -> ValueForm n text
  | text {s : String} {inside : List Char} : InsideForm s.toList inside ->
      ValueForm s ('"' :: (inside ++ ['"']))
  | missing : ValueForm Nullable.nil ['n', 'u', 'l', 'l']
  | present {n : Int64} {text : List Char} : ValueForm n text ->
      ValueForm (Nullable.some n) text

class LawfulName (K : Type) [Name K] : Prop where
  form_writeName (key : K) : NameForm key (Name.writeName key)
  reads_writeName (key : K) : exists name, Name.writeName key = '"' :: name ∧
    Reads Name.readName name key
  local_readName : Local (Name.readName : Reader K)

class LawfulValue (V : Type) [Value V] : Prop where
  form_writeValue (value : V) : ValueForm value (Value.writeValue value)
  readsBefore_writeValue (value : V) {next : Char} : Stops next ->
    ReadsBefore Value.readValue (Value.writeValue value) value next
  ahead_readValue : Ahead (Value.readValue : Reader V)

theorem reads_writeIntName (n : Int64) :
    exists name, writeIntName n = '"' :: name ∧ Reads readIntName name n :=
  ⟨_, rfl, (intForm_writeInt n).readIntName⟩

theorem reads_writeString (s : String) :
    exists name, writeString s = '"' :: name ∧ Reads readStringBody name s := by
  have hread := reads_readStringBody (insideForm_flatMap s.toList)
  rw [String.ofList_toList] at hread
  exact ⟨_, rfl, hread⟩

instance : LawfulName Int64 where
  form_writeName n := .integer (intForm_writeInt n)
  reads_writeName := reads_writeIntName
  local_readName := local_readIntName

instance : LawfulName String where
  form_writeName s := .text (insideForm_flatMap s.toList)
  reads_writeName := reads_writeString
  local_readName := local_readStringBody

theorem readName_caseless :
    (Name.readName : Reader Caseless) = andThen readStringBody fun s => give ⟨s⟩ :=
  map_eq_andThen Caseless.mk readStringBody

instance : LawfulName Caseless where
  form_writeName key := .caseless (.text (insideForm_flatMap key.text.toList))
  reads_writeName key := by
    rcases reads_writeString key.text with ⟨name, hname, hread⟩
    rw [readName_caseless]
    exact ⟨name, hname, hread.map Caseless.mk⟩
  local_readName := by
    rw [readName_caseless]
    exact local_readStringBody.map Caseless.mk

theorem readName_unhashed :
    (Name.readName : Reader Unhashed) = andThen readIntName fun n => give ⟨n⟩ :=
  map_eq_andThen Unhashed.mk readIntName

instance : LawfulName Unhashed where
  form_writeName key := .unhashed (.integer (intForm_writeInt key.number))
  reads_writeName key := by
    rcases reads_writeIntName key.number with ⟨name, hname, hread⟩
    rw [readName_unhashed]
    exact ⟨name, hname, hread.map Unhashed.mk⟩
  local_readName := by
    rw [readName_unhashed]
    exact local_readIntName.map Unhashed.mk

instance : LawfulValue Int64 where
  form_writeValue n := .integer (intForm_writeInt n)
  readsBefore_writeValue n _ hnext := (intForm_writeInt n).readInt hnext
  ahead_readValue := ahead_readInt

instance : LawfulValue String where
  form_writeValue s := .text (insideForm_flatMap s.toList)
  readsBefore_writeValue s next _ := by
    have hread := (insideForm_flatMap s.toList).readString
    rw [String.ofList_toList] at hread
    exact hread.before next
  ahead_readValue := local_readString.ahead

instance : LawfulValue Nullable where
  form_writeValue value := by
    rcases value with ⟨_ | n⟩
    · exact .missing
    · exact .present (.integer (intForm_writeInt n))
  readsBefore_writeValue value next hnext := by
    rcases value with ⟨_ | n⟩
    · exact reads_null.before next
    · exact (intForm_writeInt n).readNullable hnext
  ahead_readValue := ahead_readNullable

theorem lawfulName_of_key {K : Type} [Session.KeyKind K] (h : Session.KeyKind.Covered K) :
    LawfulName K := by
  cases h with
  | integer => exact inferInstanceAs (LawfulName Int64)
  | text => exact inferInstanceAs (LawfulName String)
  | caseless => exact inferInstanceAs (LawfulName Caseless)
  | unhashed => exact inferInstanceAs (LawfulName Unhashed)

theorem lawfulValue_of_value {V : Type} [Session.ValueKind V]
    (h : Session.ValueKind.Covered V) :
    LawfulValue V := by
  cases h with
  | integer => exact inferInstanceAs (LawfulValue Int64)
  | text => exact inferInstanceAs (LawfulValue String)
  | nullable => exact inferInstanceAs (LawfulValue Nullable)

end Json
end SealedMap
