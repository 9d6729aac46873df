/-!
# Readers of items

A reader takes some items from the front and gives back the rest, or fails.  A
local reader does not look at what it gives back, so that it makes the same of
what it takes whatever follows, and it may always fail alike when that is cut
short; a reader that looks ahead looks at the next item at most.  Readers are put together one after the other, and so are the stretches
that they take.
-/

namespace SealedMap
namespace Reading

/-- A reader of items of type `τ` that fails with faults of type `ε`. -/
abbrev Reader (τ ε α : Type) := List τ -> Except ε (α × List τ)

variable {τ ε α β : Type}

/-- The reader makes a value of exactly these items, whatever follows them. -/
def Reads (read : Reader τ ε α) (items : List τ) (a : α) : Prop :=
  forall tail, read (items ++ tail) = .ok (a, tail)

/-- What the reader makes a value of is a stretch that it always reads so. -/
def Local (read : Reader τ ε α) : Prop :=
  forall items a rest, read items = .ok (a, rest) ->
    exists used, items = used ++ rest ∧ Reads read used a

/-- The reader makes a value of these items if this item follows, whatever comes after it. -/
def ReadsBefore (read : Reader τ ε α) (items : List τ) (a : α) (next : τ) : Prop :=
  forall tail, read (items ++ next :: tail) = .ok (a, next :: tail)

/-- What the reader makes a value of is a stretch that it reads so before the same item. -/
def Ahead (read : Reader τ ε α) : Prop :=
  forall items a rest, read items = .ok (a, rest) ->
    exists used, items = used ++ rest ∧
      forall next more, rest = next :: more -> ReadsBefore read used a next

/-- Items that are cut short within what the reader takes make it end with this fault. -/
def StopsShort (fault : ε) (read : Reader τ ε α) : Prop :=
  forall front back rest a, read (front ++ (back ++ rest)) = .ok (a, rest) ->
    back ≠ [] -> read front = .error fault

def RefusesEmpty (read : Reader τ ε α) : Prop :=
  forall a rest, read [] ≠ .ok (a, rest)

def Takes (read : Reader τ ε α) : Prop :=
  forall items a rest, read items = .ok (a, rest) -> rest.length < items.length

theorem Reads.ne_nil {read : Reader τ ε α} {items : List τ} {a : α} (h : Reads read items a)
    (hempty : RefusesEmpty read) :
    items ≠ [] := by
  intro hnil
  subst hnil
  exact hempty a [] (h [])

theorem Reads.before {read : Reader τ ε α} {items : List τ} {a : α} (h : Reads read items a)
    (next : τ) :
    ReadsBefore read items a next :=
  fun tail => h (next :: tail)

theorem Local.ahead {read : Reader τ ε α} (h : Local read) :
    Ahead read := by
  intro items a rest hread
  rcases h items a rest hread with ⟨used, hitems, hused⟩
  exact ⟨used, hitems, fun next _ _ => hused.before next⟩

theorem Ahead.exists_used {read : Reader τ ε α} (h : Ahead read) {items rest : List τ} {a : α}
    (hread : read items = .ok (a, rest)) :
    exists used, items = used ++ rest := by
  rcases h items a rest hread with ⟨used, hitems, _⟩
  exact ⟨used, hitems⟩

theorem Ahead.length_le {read : Reader τ ε α} (h : Ahead read) {items rest : List τ} {a : α}
    (hread : read items = .ok (a, rest)) :
    rest.length ≤ items.length := by
  rcases h.exists_used hread with ⟨used, rfl⟩
  rw [List.length_append]
  exact Nat.le_add_left _ _

/-! ## One after the other -/

def give (a : α) : Reader τ ε α := fun items =>
  .ok (a, items)

def fail (fault : ε) : Reader τ ε α := fun _ =>
  .error fault

def peek (fault : ε) : Reader τ ε τ
  | [] => .error fault
  | item :: rest => .ok (item, item :: rest)

def andThen (read : Reader τ ε α) (next : α -> Reader τ ε β) : Reader τ ε β := fun items =>
  match read items with
  | .error fault => .error fault
  | .ok (a, rest) => next a rest

theorem andThen_of_ok {read : Reader τ ε α} {next : α -> Reader τ ε β} {items rest : List τ}
    {a : α} (h : read items = .ok (a, rest)) :
    andThen read next items = next a rest := by
  rw [andThen, h]

theorem andThen_of_error {read : Reader τ ε α} {next : α -> Reader τ ε β} {items : List τ}
    {fault : ε} (h : read items = .error fault) :
    andThen read next items = .error fault := by
  rw [andThen, h]

theorem exists_of_andThen_eq_ok {read : Reader τ ε α} {next : α -> Reader τ ε β}
    {items rest : List τ} {b : β} (h : andThen read next items = .ok (b, rest)) :
    exists a between, read items = .ok (a, between) ∧ next a between = .ok (b, rest) := by
  cases hread : read items with
  | error fault =>
      rw [andThen_of_error hread] at h
      cases h
  | ok taken =>
      rcases taken with ⟨a, between⟩
      rw [andThen_of_ok hread] at h
      exact ⟨a, between, rfl, h⟩

theorem andThen_assoc {γ : Type} (read : Reader τ ε α) (next : α -> Reader τ ε β)
    (last : β -> Reader τ ε γ) :
    andThen (andThen read next) last = andThen read fun a => andThen (next a) last := by
  funext items
  cases hread : read items with
  | error fault => rw [andThen_of_error hread, andThen_of_error (andThen_of_error hread)]
  | ok taken =>
      rcases taken with ⟨a, rest⟩
      rw [andThen_of_ok hread, andThen, andThen_of_ok hread]
      rfl

theorem map_eq_andThen (f : α -> β) (read : Reader τ ε α) :
    (fun items => (read items).map fun (a, rest) => (f a, rest)) =
      andThen read fun a => give (f a) := by
  funext items
  cases hread : read items with
  | error fault =>
      rw [andThen_of_error hread]
      rfl
  | ok taken =>
      rw [andThen_of_ok hread]
      rfl

theorem reads_give (a : α) :
    Reads (give a : Reader τ ε α) [] a :=
  fun _ => rfl

theorem Reads.andThen {read : Reader τ ε α} {next : α -> Reader τ ε β} {front back : List τ}
    {a : α} {b : β} (hread : Reads read front a) (hnext : Reads (next a) back b) :
    Reads (andThen read next) (front ++ back) b := by
  intro tail
  rw [List.append_assoc, andThen_of_ok (hread (back ++ tail))]
  exact hnext tail

theorem Reads.map {read : Reader τ ε α} {items : List τ} {a : α} (h : Reads read items a)
    (f : α -> β) :
    Reads (Reading.andThen read fun a => give (f a)) items (f a) := by
  intro tail
  rw [andThen_of_ok (h tail)]
  rfl

theorem Takes.andThen {read : Reader τ ε α} {next : α -> Reader τ ε β} (hread : Takes read)
    (hnext : forall a, Ahead (next a)) :
    Takes (andThen read next) := by
  intro items b rest h
  rcases exists_of_andThen_eq_ok h with ⟨a, between, ha, hb⟩
  exact Nat.lt_of_le_of_lt ((hnext a).length_le hb) (hread items a between ha)

theorem Ahead.andThen_takes {read : Reader τ ε α} {next : α -> Reader τ ε β}
    (hread : Ahead read) (hnext : forall a, Takes (next a)) :
    Takes (Reading.andThen read next) := by
  intro items b rest h
  rcases exists_of_andThen_eq_ok h with ⟨a, between, ha, hb⟩
  exact Nat.lt_of_lt_of_le (hnext a between b rest hb) (hread.length_le ha)

/-! ### Local readers -/

theorem local_give (a : α) :
    Local (give a : Reader τ ε α) := by
  intro items b rest h
  cases h
  exact ⟨[], rfl, reads_give a⟩

theorem local_fail (fault : ε) :
    Local (fail fault : Reader τ ε α) := by
  intro items a rest h
  cases h

theorem Local.andThen {read : Reader τ ε α} {next : α -> Reader τ ε β} (hread : Local read)
    (hnext : forall a, Local (next a)) :
    Local (andThen read next) := by
  intro items b rest h
  rcases exists_of_andThen_eq_ok h with ⟨a, between, ha, hb⟩
  rcases hread items a between ha with ⟨front, rfl, hfront⟩
  rcases hnext a between b rest hb with ⟨back, rfl, hback⟩
  exact ⟨front ++ back, (List.append_assoc front back rest).symm, hfront.andThen hback⟩

theorem Local.map {read : Reader τ ε α} (h : Local read) (f : α -> β) :
    Local (Reading.andThen read fun a => give (f a)) :=
  h.andThen fun a => local_give (f a)

theorem Local.ite {p : Prop} [Decidable p] {yes no : Reader τ ε α} (hyes : Local yes)
    (hno : Local no) :
    Local (if p then yes else no) := by
  split
  next => exact hyes
  next => exact hno

/-! ### Readers of items cut short -/

theorem stopsShort_give (fault : ε) (a : α) :
    StopsShort fault (give a : Reader τ ε α) := by
  intro front back rest b h hback
  have hrest : front ++ (back ++ rest) = rest := congrArg Prod.snd (Except.ok.inj h)
  rw [← List.append_assoc, List.append_left_eq_self] at hrest
  exact absurd (List.append_eq_nil_iff.mp hrest).2 hback

theorem stopsShort_fail (fault other : ε) :
    StopsShort fault (fail other : Reader τ ε α) := by
  intro front back rest a h
  cases h

theorem StopsShort.andThen {fault : ε} {read : Reader τ ε α} {next : α -> Reader τ ε β}
    (hread : StopsShort fault read) (hlocal : Local read)
    (hnext : forall a, StopsShort fault (next a)) (hnextLocal : forall a, Local (next a)) :
    StopsShort fault (andThen read next) := by
  intro front back rest b h hback
  rcases exists_of_andThen_eq_ok h with ⟨a, between, ha, hb⟩
  rcases hlocal _ a between ha with ⟨used, hitems, hused⟩
  rcases hnextLocal a between b rest hb with ⟨taken, rfl, _⟩
  have hbehind : forall more, front = used ++ more -> taken = more ++ back ->
      Reading.andThen read next front = .error fault := by
    intro more hfront htaken
    subst hfront htaken
    rw [List.append_assoc] at hb
    rw [andThen_of_ok (hused more)]
    exact hnext a more back rest b hb hback
  rw [← List.append_assoc, ← List.append_assoc] at hitems
  rcases List.append_eq_append_iff.mp (List.append_cancel_right hitems) with
    ⟨more, hmore, htaken⟩ | ⟨more, hmore, htaken⟩
  · by_cases hnil : more = []
    case pos =>
      subst hnil
      exact hbehind [] (by rw [hmore, List.append_nil, List.append_nil]) htaken.symm
    case neg =>
      subst hmore htaken
      rw [List.append_assoc] at ha
      exact andThen_of_error (hread front more (taken ++ rest) a ha hnil)
  · exact hbehind more hmore htaken

theorem StopsShort.map {fault : ε} {read : Reader τ ε α} (h : StopsShort fault read)
    (hlocal : Local read) (f : α -> β) :
    StopsShort fault (Reading.andThen read fun a => give (f a)) :=
  h.andThen hlocal (fun a => stopsShort_give fault (f a)) fun a => local_give (f a)

theorem StopsShort.ite {fault : ε} {p : Prop} [Decidable p] {yes no : Reader τ ε α}
    (hyes : StopsShort fault yes) (hno : StopsShort fault no) :
    StopsShort fault (if p then yes else no) := by
  split
  next => exact hyes
  next => exact hno

/-! ### Readers that look ahead -/

/--
The first reader looks at most at the next item, which is one that the second
reader takes or, if that takes none, the one that stays the next.
-/
theorem Ahead.andThen {read : Reader τ ε α} {next : α -> Reader τ ε β} (hread : Ahead read)
    (hnext : forall a, Ahead (next a)) :
    Ahead (andThen read next) := by
  intro items b rest h
  rcases exists_of_andThen_eq_ok h with ⟨a, between, ha, hb⟩
  rcases hread items a between ha with ⟨front, rfl, hfront⟩
  rcases hnext a between b rest hb with ⟨back, rfl, hback⟩
  refine ⟨front ++ back, (List.append_assoc front back rest).symm, ?_⟩
  intro item more hrest tail
  subst hrest
  rw [List.append_assoc]
  cases back with
  | nil =>
      rw [List.nil_append, andThen_of_ok (hfront item more rfl tail)]
      exact hback item more rfl tail
  | cons first back =>
      have hahead := hfront first (back ++ item :: more) rfl (back ++ item :: tail)
      rw [List.cons_append, andThen_of_ok hahead]
      exact hback item more rfl tail

theorem ahead_peek (fault : ε) :
    Ahead (peek fault : Reader τ ε τ) := by
  intro items item rest h
  cases items with
  | nil => cases h
  | cons first items =>
      cases h
      refine ⟨[], rfl, ?_⟩
      intro next more hrest tail
      rw [(List.cons.inj hrest).1]
      rfl

theorem Ahead.map {read : Reader τ ε α} (h : Ahead read) (f : α -> β) :
    Ahead (Reading.andThen read fun a => give (f a)) :=
  h.andThen fun a => (local_give (f a)).ahead

theorem Ahead.andThen_local {read : Reader τ ε α} {next : α -> Reader τ ε β}
    (hread : Ahead read) (hnext : forall a, Local (next a))
    (hempty : forall a, RefusesEmpty (next a)) :
    Local (Reading.andThen read next) := by
  intro items b rest h
  rcases exists_of_andThen_eq_ok h with ⟨a, between, ha, hb⟩
  rcases hread items a between ha with ⟨front, rfl, hfront⟩
  rcases hnext a between b rest hb with ⟨back, rfl, hback⟩
  refine ⟨front ++ back, (List.append_assoc front back rest).symm, ?_⟩
  intro tail
  rw [List.append_assoc]
  cases back with
  | nil => exact absurd rfl (hback.ne_nil (hempty a))
  | cons first back =>
      have hahead := hfront first (back ++ rest) rfl (back ++ tail)
      rw [List.cons_append, andThen_of_ok hahead]
      exact hback tail

end Reading
end SealedMap
