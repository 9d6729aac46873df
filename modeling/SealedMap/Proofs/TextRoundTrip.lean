import Mathlib
import SealedMap.Proofs.PairStreams
import SealedMap.Proofs.RejectingBuilds

/-!
# Maps in text and back

The text of a map is an object of its pairs in their order, with nothing between
them but the marks of the grammar.  Reading it takes in all members and builds a
map of the same pairs in the same order: the keys of a map are distinct, so
nothing is refused.
-/

namespace SealedMap
namespace Json

open Reading (Reads ReadsBefore Streams give andThen andThen_of_ok)

variable {K V : Type}

inductive MemberForm (pair : K × V) : List Char -> Prop where
  | mk {name value : List Char} : NameForm pair.1 name -> ValueForm pair.2 value ->
      MemberForm pair (name ++ ':' :: value)

inductive MoreForm : List (K × V) -> List Char -> Prop where
  | nil : MoreForm [] []
  | cons {pair : K × V} {pairs : List (K × V)} {member more : List Char} :
      MemberForm pair member -> MoreForm pairs more ->
      MoreForm (pair :: pairs) (',' :: member ++ more)

inductive ObjectForm : List (K × V) -> List Char -> Prop where
  | empty : ObjectForm [] ['\x7b', '\x7d']
  | members {pair : K × V} {pairs : List (K × V)} {member more : List Char} :
      MemberForm pair member -> MoreForm pairs more ->
      ObjectForm (pair :: pairs) ('\x7b' :: (member ++ more ++ ['\x7d']))

variable [Name K] [Value V]

theorem exists_stop (pairs : List (K × V)) (tail : List Char) :
    exists next more, writeMore pairs ++ '\x7d' :: tail = next :: more ∧ Stops next := by
  cases pairs with
  | nil => exact ⟨'\x7d', tail, rfl, rfl, by decide, rfl⟩
  | cons pair pairs => exact ⟨',', _, rfl, rfl, by decide, rfl⟩

variable [LawfulName K]

theorem exists_writeMember_eq_cons (pair : K × V) :
    exists member, writeMember pair = '"' :: member := by
  rcases LawfulName.reads_writeName pair.1 with ⟨name, hname, _⟩
  exact ⟨_, congrArg (· ++ ':' :: Value.writeValue pair.2) hname⟩

variable [LawfulValue V]

/-! ## Writing -/

theorem memberForm_writeMember (pair : K × V) :
    MemberForm pair (writeMember pair) :=
  .mk (LawfulName.form_writeName pair.1) (LawfulValue.form_writeValue pair.2)

theorem moreForm_writeMore (pairs : List (K × V)) :
    MoreForm pairs (writeMore pairs) := by
  induction pairs with
  | nil => exact .nil
  | cons pair pairs ih => exact .cons (memberForm_writeMember pair) ih

theorem objectForm_writeObject (pairs : List (K × V)) :
    ObjectForm pairs (writeObject pairs) := by
  cases pairs with
  | nil => exact .empty
  | cons pair pairs => exact .members (memberForm_writeMember pair) (moreForm_writeMore pairs)

/-! ## Reading -/

theorem readsBefore_readQuoted (pair : K × V) {next : Char} (hnext : Stops next) :
    ReadsBefore readQuoted (writeMember pair) pair next := by
  intro tail
  rcases LawfulName.reads_writeName pair.1 with ⟨name, hname, hread⟩
  have hcolon : andThen blanks (fun _ => mark .truncated ':')
      (':' :: (Value.writeValue pair.2 ++ next :: tail)) =
        .ok ((), Value.writeValue pair.2 ++ next :: tail) := rfl
  have hvalue := LawfulValue.readsBefore_writeValue pair.2 hnext tail
  have hmember : readMember (name ++ ':' :: (Value.writeValue pair.2 ++ next :: tail)) =
      .ok (pair, next :: tail) := by
    rw [readMember_eq, andThen_of_ok (hread _), andThen_of_ok hcolon, andThen_of_ok hvalue]
    rfl
  rw [writeMember, hname, List.append_assoc, List.cons_append, List.cons_append]
  exact hmember

theorem readsBefore_memberStep_true (pair : K × V) {next : Char} (hnext : Stops next) :
    ReadsBefore (memberStep K V true) (writeMember pair) (some (pair, false)) next := by
  intro tail
  have hquoted := readsBefore_readQuoted pair hnext tail
  rcases exists_writeMember_eq_cons pair with ⟨member, hmember⟩
  rw [hmember, List.cons_append] at hquoted ⊢
  rw [memberStep, andThen_of_ok (blanks_cons rfl _), andThen_of_ok rfl, if_neg (by decide),
    andThen_of_ok rfl, andThen_of_ok hquoted]
  rfl

theorem readsBefore_memberStep_false (pair : K × V) {next : Char} (hnext : Stops next) :
    ReadsBefore (memberStep K V false) (',' :: writeMember pair) (some (pair, false)) next := by
  intro tail
  have hquoted := readsBefore_readQuoted pair hnext tail
  rw [memberStep, List.cons_append, andThen_of_ok (blanks_cons rfl _), andThen_of_ok rfl,
    if_neg (by decide), andThen_of_ok rfl, andThen_of_ok hquoted]
  rfl

theorem streams_writeMore (pairs : List (K × V)) (tail : List Char) :
    Streams (memberStep K V) false (writeMore pairs ++ '\x7d' :: tail) pairs (.ok tail) := by
  induction pairs with
  | nil => exact .ends rfl
  | cons pair pairs ih =>
      have hmore : writeMore (pair :: pairs) ++ '\x7d' :: tail =
          ',' :: writeMember pair ++ (writeMore pairs ++ '\x7d' :: tail) := by
        rw [writeMore, List.flatMap_cons, List.append_assoc]
        rfl
      rcases exists_stop pairs tail with ⟨next, more, hnext, hstops⟩
      rw [hmore]
      refine .next ?_ ih
      rw [hnext]
      exact readsBefore_memberStep_false pair hstops more

theorem memberStream_writeObject (pairs : List (K × V)) :
    exists inside, writeObject pairs = '\x7b' :: inside ∧
      forall tail, MemberStream (inside ++ tail) pairs (.ok tail) := by
  cases pairs with
  | nil => exact ⟨['\x7d'], rfl, fun tail => .ends rfl⟩
  | cons pair pairs =>
      refine ⟨_, rfl, ?_⟩
      intro tail
      rcases exists_stop pairs tail with ⟨next, more, hnext, hstops⟩
      simp only [List.append_assoc, List.singleton_append]
      refine .next ?_ (streams_writeMore pairs tail)
      rw [hnext]
      exact readsBefore_memberStep_true pair hstops more

theorem readObject_writeObject (pairs : List (K × V)) (tail : List Char) :
    readObject (writeObject pairs ++ tail) = .ok (pairs, tail) := by
  rcases memberStream_writeObject pairs with ⟨inside, hinside, hstream⟩
  have htext : skipBlank (writeObject pairs ++ tail) = '\x7b' :: (inside ++ tail) := by
    rw [hinside, List.cons_append]
    exact skipBlank_cons rfl _
  exact (hstream tail).readObject htext

end Json

/-! ## Maps -/

namespace Map

open Construction (Constructed)
open Json (ObjectForm)
open Session (KeyKind ValueKind)

/--
The text of a constructed map is the compact object of its pairs.  Read with any
hash function, it gives a map of the same pairs in the same order.
-/
theorem ofJson_toJson {K V : Type} [KeyKind K] [ValueKind V]
    (hkeys : KeyKind.Covered K) (hvalues : ValueKind.Covered V) {hash : K -> UInt64}
    (hhash : forall a b, (a == b) = true -> hash a = hash b)
    {entries : Array (Entry K V)} {map : Map K V} (h : Constructed hash entries map) :
    ObjectForm map.toList map.toJson.toList ∧
      forall other : K -> UInt64, exists read : Map K V,
        (ofJson other map.toJson).outcome = .ok read ∧ read.toList = map.toList := by
  have := hkeys.equivBEq
  have := hkeys.lawfulHashable
  have := Json.lawfulName_of_key hkeys
  have := Json.lawfulValue_of_value hvalues
  rw [toJson, String.toList_ofList]
  refine ⟨Json.objectForm_writeObject map.toList, ?_⟩
  intro other
  rcases exists_ofDistinct_toList hhash h other with ⟨read, houtcome, hpairs⟩
  have hread := Json.readObject_writeObject map.toList []
  rw [List.append_nil] at hread
  refine ⟨read, ?_, hpairs⟩
  rw [ofJson, String.toList_ofList, hread]
  dsimp only
  rw [ofPairsRead, houtcome]
  rfl

def escapedKeys : Map Caseless Nullable where
  layout :=
    .chained #[⟨⟨"A\"\x01"⟩, .nil⟩, ⟨⟨"\\é"⟩, .some (-9223372036854775808)⟩]
      { hash := fun _ => 0
        heads := #[some 1, none]
        links := #[none, some 0]
        shift := 63 }
  hash := fun _ => 0

theorem ofJson_toJson_escapedKeys :
    escapedKeys.toJson =
        "\x7b\"A\\\"\\u0001\":null,\"\\\\é\":-9223372036854775808\x7d" ∧
      forall other, exists read : Map Caseless Nullable,
        (ofJson other escapedKeys.toJson).outcome = .ok read ∧
        read.toList = escapedKeys.toList := by
  have hconstructed : Constructed (fun _ => 0)
      #[⟨⟨"A\"\x01"⟩, .nil⟩, ⟨⟨"\\é"⟩, .some (-9223372036854775808)⟩] escapedKeys := by
    have houtcome : ((Construction.construct (fun _ : Caseless => 0)
        (.reject : Policy Unit Caseless Nullable) none
        #[⟨⟨"A\"\x01"⟩, .nil⟩, ⟨⟨"\\é"⟩, .some (-9223372036854775808)⟩]).run ()).1.outcome =
          .ok escapedKeys := by cbv
    exact .construct houtcome
  exact ⟨by cbv, (ofJson_toJson .caseless .nullable (fun _ _ _ => rfl) hconstructed).2⟩

end Map
end SealedMap
