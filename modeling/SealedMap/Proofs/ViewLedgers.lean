import SealedMap.Session.Instance

/-!
# Numbers of views

A ledger gives every view a number when it is first asked for, and no two views
the same one.  The inverse of an instance goes by its multimap view, whose number
is given before.  So asking for a view of an instance settles the number of that
view, and changes none that was settled before.
-/

namespace SealedMap
namespace Session
namespace ViewLedger

def lookup (ledger : ViewLedger) (owner : ViewOwner) : Option Nat :=
  ledger.known.lookup owner

/-- The number of the view that an instance has, if it was asked for. -/
def known? (ledger : ViewLedger) (serial : Nat) : ViewKind -> Option Nat
  | .inverse => (ledger.lookup (.instance serial .multi)).bind fun multi =>
      ledger.lookup (.multimap multi)
  | kind => ledger.lookup (.instance serial kind)

/-- Numbers are given from zero on, each of them once, and inverses go by views that have one. -/
structure Sound (ledger : ViewLedger) : Prop where
  lt_next : forall owner view, ledger.lookup owner = some view -> view < ledger.next
  injective : forall owner other view, ledger.lookup owner = some view ->
    ledger.lookup other = some view -> owner = other
  multi_lt_next : forall multi view, ledger.lookup (.multimap multi) = some view ->
    multi < ledger.next

theorem sound_empty : empty.Sound where
  lt_next := nofun
  injective := nofun
  multi_lt_next := nofun

/-! ## Requests -/

section Request

variable {ledger : ViewLedger} {owner other : ViewOwner} {view : Nat}

theorem request_of_some (h : ledger.lookup owner = some view) :
    ledger.request owner = (view, ledger) := by
  unfold request
  unfold lookup at h
  rw [h]

theorem request_of_none (h : ledger.lookup owner = none) :
    ledger.request owner =
      (ledger.next, ⟨(owner, ledger.next) :: ledger.known, ledger.next + 1⟩) := by
  unfold request
  unfold lookup at h
  rw [h]

theorem lookup_cons_self (ledger : ViewLedger) (owner : ViewOwner) (view next : Nat) :
    (⟨(owner, view) :: ledger.known, next⟩ : ViewLedger).lookup owner = some view := by
  simp [lookup]

theorem lookup_cons_of_ne (h : other ≠ owner) (view next : Nat) :
    (⟨(owner, view) :: ledger.known, next⟩ : ViewLedger).lookup other = ledger.lookup other := by
  have hne : (other == owner) = false := beq_false_of_ne h
  simp [lookup, List.lookup_cons, hne]

theorem lookup_request_self (ledger : ViewLedger) (owner : ViewOwner) :
    (ledger.request owner).2.lookup owner = some (ledger.request owner).1 := by
  cases h : ledger.lookup owner with
  | some view =>
      rw [request_of_some h]
      exact h
  | none =>
      rw [request_of_none h]
      exact lookup_cons_self ledger owner ledger.next _

theorem lookup_request_of_ne (h : other ≠ owner) :
    (ledger.request owner).2.lookup other = ledger.lookup other := by
  cases hlookup : ledger.lookup owner with
  | some view => rw [request_of_some hlookup]
  | none =>
      rw [request_of_none hlookup]
      exact lookup_cons_of_ne h ledger.next _

theorem request_eq_getD (ledger : ViewLedger) (owner : ViewOwner) :
    (ledger.request owner).1 = (ledger.lookup owner).getD ledger.next := by
  cases h : ledger.lookup owner with
  | some view =>
      rw [request_of_some h]
      rfl
  | none =>
      rw [request_of_none h]
      rfl

theorem next_request (ledger : ViewLedger) (owner : ViewOwner) :
    (ledger.request owner).2.next =
      if (ledger.lookup owner).isSome then ledger.next else ledger.next + 1 := by
  cases h : ledger.lookup owner with
  | some view => rw [request_of_some h]; rfl
  | none => rw [request_of_none h]; rfl

theorem lookup_cons_eq_some_iff {next : Nat} {given : Nat} :
    (⟨(owner, given) :: ledger.known, next⟩ : ViewLedger).lookup other = some view ↔
      (other = owner ∧ given = view) ∨ (other ≠ owner ∧ ledger.lookup other = some view) := by
  by_cases h : other = owner
  · subst h
    rw [lookup_cons_self]
    simp
  · rw [lookup_cons_of_ne h]
    simp [h]

theorem Sound.request (h : ledger.Sound)
    (howner : forall multi, owner = .multimap multi -> multi < ledger.next) :
    (ledger.request owner).2.Sound := by
  cases hlookup : ledger.lookup owner with
  | some view =>
      rw [request_of_some hlookup]
      exact h
  | none =>
      rw [request_of_none hlookup]
      refine ⟨?_, ?_, ?_⟩
      · intro other view hview
        rcases lookup_cons_eq_some_iff.mp hview with ⟨_, rfl⟩ | ⟨_, hold⟩
        · exact Nat.lt_succ_self _
        · exact Nat.lt_succ_of_lt (h.lt_next other view hold)
      · intro first second view hfirst hsecond
        rcases lookup_cons_eq_some_iff.mp hfirst with ⟨rfl, rfl⟩ | ⟨_, hold⟩
        · rcases lookup_cons_eq_some_iff.mp hsecond with ⟨rfl, _⟩ | ⟨_, hold⟩
          · rfl
          · exact absurd (h.lt_next second _ hold) (Nat.lt_irrefl _)
        · rcases lookup_cons_eq_some_iff.mp hsecond with ⟨rfl, rfl⟩ | ⟨_, hold'⟩
          · exact absurd (h.lt_next first _ hold) (Nat.lt_irrefl _)
          · exact h.injective first second view hold hold'
      · intro multi view hview
        rcases lookup_cons_eq_some_iff.mp hview with ⟨heq, _⟩ | ⟨_, hold⟩
        · exact Nat.lt_succ_of_lt (howner multi heq.symm)
        · exact Nat.lt_succ_of_lt (h.multi_lt_next multi view hold)

end Request

/-! ## Views of instances -/

/-- One ledger has settled the number of one view of an instance, and no other. -/
structure Settles (ledger after : ViewLedger) (serial : Nat) (kind : ViewKind) : Prop where
  known?_eq : forall other otherKind, after.known? other otherKind =
    if other = serial ∧ otherKind = kind then
      some ((ledger.known? serial kind).getD ledger.next)
    else ledger.known? other otherKind
  next_eq : after.next =
    if (ledger.known? serial kind).isSome then ledger.next else ledger.next + 1

section Views

variable {ledger after : ViewLedger} {serial other multi number : Nat} {kind otherKind : ViewKind}

theorem Settles.known?_self (h : ledger.Settles after serial kind) :
    after.known? serial kind = some ((ledger.known? serial kind).getD ledger.next) := by
  rw [h.known?_eq, if_pos ⟨rfl, rfl⟩]

theorem Settles.known?_of_ne (h : ledger.Settles after serial kind)
    (hne : ¬ (other = serial ∧ otherKind = kind)) :
    after.known? other otherKind = ledger.known? other otherKind := by
  rw [h.known?_eq, if_neg hne]

theorem Settles.mono (h : ledger.Settles after serial kind)
    (hnumber : ledger.known? other otherKind = some number) :
    after.known? other otherKind = some number := by
  by_cases hsame : other = serial ∧ otherKind = kind
  · rcases hsame with ⟨rfl, rfl⟩
    rw [h.known?_self, hnumber]
    rfl
  · rw [h.known?_of_ne hsame, hnumber]

theorem known?_of_ne_inverse (ledger : ViewLedger) (serial : Nat) (h : kind ≠ .inverse) :
    ledger.known? serial kind = ledger.lookup (.instance serial kind) := by
  cases kind with
  | inverse => exact absurd rfl h
  | _ => rfl

theorem known?_inverse_of_multi (h : ledger.known? serial .multi = some multi) :
    ledger.known? serial .inverse = ledger.lookup (.multimap multi) := by
  have hmulti : ledger.lookup (.instance serial .multi) = some multi := h
  rw [known?, hmulti]
  rfl

theorem known?_inverse_of_none (h : ledger.known? serial .multi = none) :
    ledger.known? serial .inverse = none := by
  have hmulti : ledger.lookup (.instance serial .multi) = none := h
  rw [known?, hmulti]
  rfl

theorem Sound.lookup_next (h : ledger.Sound) :
    ledger.lookup (.multimap ledger.next) = none := by
  cases hlookup : ledger.lookup (.multimap ledger.next) with
  | none => rfl
  | some view => exact absurd (h.multi_lt_next ledger.next view hlookup) (Nat.lt_irrefl _)

theorem known?_inverse_request_instance (h : ledger.Sound) (serial other : Nat)
    (kind : ViewKind) :
    (ledger.request (.instance serial kind)).2.known? other .inverse =
      ledger.known? other .inverse := by
  have hmultimap : forall multi, (ledger.request (.instance serial kind)).2.lookup
      (.multimap multi) = ledger.lookup (.multimap multi) := by
    intro multi
    exact lookup_request_of_ne nofun
  unfold known?
  simp only [hmultimap]
  by_cases hsame : ViewOwner.instance other .multi = .instance serial kind
  · rw [← hsame, lookup_request_self, request_eq_getD]
    cases ledger.lookup (.instance other .multi) with
    | some multi => rfl
    | none => exact h.lookup_next
  · rw [lookup_request_of_ne hsame]

theorem settles_request_instance (h : ledger.Sound) (serial : Nat) (hkind : kind ≠ .inverse) :
    ledger.Settles (ledger.request (.instance serial kind)).2 serial kind where
  known?_eq := by
    intro other otherKind
    by_cases hother : otherKind = .inverse
    · subst hother
      rw [if_neg fun hsame => hkind hsame.2.symm]
      exact known?_inverse_request_instance h serial other kind
    · rw [known?_of_ne_inverse _ other hother]
      by_cases hsame : other = serial ∧ otherKind = kind
      · rcases hsame with ⟨rfl, rfl⟩
        rw [lookup_request_self, if_pos ⟨rfl, rfl⟩, request_eq_getD,
          known?_of_ne_inverse ledger other hother]
      · have hne : ViewOwner.instance other otherKind ≠ .instance serial kind := by
          intro heq
          injection heq with hserial hkinds
          exact hsame ⟨hserial, hkinds⟩
        rw [lookup_request_of_ne hne, if_neg hsame, known?_of_ne_inverse ledger other hother]
  next_eq := by rw [next_request, known?_of_ne_inverse ledger serial hkind]

theorem known?_multi_request_multimap (multi other : Nat) :
    (ledger.request (.multimap multi)).2.known? other .multi = ledger.known? other .multi :=
  lookup_request_of_ne nofun

theorem settles_request_multimap (h : ledger.Sound)
    (hmulti : ledger.known? serial .multi = some multi) :
    ledger.Settles (ledger.request (.multimap multi)).2 serial .inverse where
  known?_eq := by
    intro other otherKind
    by_cases hother : otherKind = .inverse
    · subst hother
      by_cases hsame : other = serial
      · subst hsame
        rw [if_pos ⟨rfl, rfl⟩, known?_inverse_of_multi hmulti, known?_inverse_of_multi,
          lookup_request_self, request_eq_getD]
        rw [known?_multi_request_multimap, hmulti]
      · rw [if_neg fun hboth => hsame hboth.1]
        cases hothers : ledger.known? other .multi with
        | none =>
            rw [known?_inverse_of_none hothers, known?_inverse_of_none]
            rw [known?_multi_request_multimap, hothers]
        | some third =>
            -- Two instances with one multimap view would be one instance.
            have hne : third ≠ multi := by
              intro heq
              subst heq
              injection h.injective _ _ _ hothers hmulti with hserial
              exact hsame hserial
            have hafter : (ledger.request (.multimap multi)).2.known? other .multi =
                some third := by
              rw [known?_multi_request_multimap, hothers]
            rw [known?_inverse_of_multi hothers, known?_inverse_of_multi hafter]
            apply lookup_request_of_ne
            intro heq
            injection heq with heq
            exact hne heq
    · rw [if_neg fun hboth => hother hboth.2, known?_of_ne_inverse _ other hother,
        known?_of_ne_inverse _ other hother]
      exact lookup_request_of_ne nofun
  next_eq := by rw [next_request, known?_inverse_of_multi hmulti]

theorem view_inverse_eq (ledger : ViewLedger) (serial : Nat) :
    ledger.view serial .inverse =
      (ledger.request (.instance serial .multi)).2.request
        (.multimap (ledger.request (.instance serial .multi)).1) := rfl

theorem view_eq_of_ne_inverse (ledger : ViewLedger) (serial : Nat) (h : kind ≠ .inverse) :
    ledger.view serial kind = ledger.request (.instance serial kind) := by
  cases kind with
  | inverse => exact absurd rfl h
  | _ => rfl

theorem known?_multi_request (ledger : ViewLedger) (serial : Nat) :
    (ledger.request (.instance serial .multi)).2.known? serial .multi =
      some (ledger.request (.instance serial .multi)).1 :=
  lookup_request_self ledger (.instance serial .multi)

theorem Sound.request_instance (h : ledger.Sound) (serial : Nat) (kind : ViewKind) :
    (ledger.request (.instance serial kind)).2.Sound :=
  h.request nofun

theorem Sound.view (h : ledger.Sound) (serial : Nat) (kind : ViewKind) :
    (ledger.view serial kind).2.Sound := by
  by_cases hkind : kind = .inverse
  · subst hkind
    have hmulti := h.request_instance serial .multi
    rw [view_inverse_eq]
    apply hmulti.request
    intro multi heq
    injection heq with heq
    rw [← heq]
    exact hmulti.lt_next _ _ (lookup_request_self ledger (.instance serial .multi))
  · rw [view_eq_of_ne_inverse ledger serial hkind]
    exact h.request_instance serial kind

theorem lookup_instance_view (h : other ≠ serial) (kind otherKind : ViewKind) :
    (ledger.view serial kind).2.lookup (.instance other otherKind) =
      ledger.lookup (.instance other otherKind) := by
  have hne : forall third, ViewOwner.instance other otherKind ≠ .instance serial third := by
    intro third heq
    injection heq with hserial
    exact h hserial
  by_cases hkind : kind = .inverse
  · subst hkind
    have hmulti : forall third, ViewOwner.instance other otherKind ≠ .multimap third := nofun
    rw [view_inverse_eq, lookup_request_of_ne (hmulti _), lookup_request_of_ne (hne .multi)]
  · rw [view_eq_of_ne_inverse ledger serial hkind]
    exact lookup_request_of_ne (hne kind)

theorem known?_view_self (ledger : ViewLedger) (serial : Nat) (kind : ViewKind) :
    (ledger.view serial kind).2.known? serial kind = some (ledger.view serial kind).1 := by
  by_cases hkind : kind = .inverse
  · subst hkind
    rw [view_inverse_eq, known?_inverse_of_multi, lookup_request_self]
    rw [known?_multi_request_multimap]
    exact known?_multi_request ledger serial
  · rw [view_eq_of_ne_inverse ledger serial hkind, known?_of_ne_inverse _ serial hkind]
    exact lookup_request_self ledger (.instance serial kind)

theorem known?_view_mono (h : ledger.Sound) (serial : Nat) (kind : ViewKind)
    (hnumber : ledger.known? other otherKind = some number) :
    (ledger.view serial kind).2.known? other otherKind = some number := by
  by_cases hkind : kind = .inverse
  · subst hkind
    have hne : ViewKind.multi ≠ .inverse := nofun
    have hmulti := settles_request_instance h serial hne
    have hinverse := settles_request_multimap (h.request_instance serial .multi)
      (known?_multi_request ledger serial)
    exact hinverse.mono (hmulti.mono hnumber)
  · rw [view_eq_of_ne_inverse ledger serial hkind]
    exact (settles_request_instance h serial hkind).mono hnumber

theorem view_of_known? (h : ledger.Sound) (hnumber : ledger.known? serial kind = some number) :
    (ledger.view serial kind).1 = number := by
  have hafter := known?_view_mono h serial kind hnumber
  rw [known?_view_self] at hafter
  exact Option.some.inj hafter

theorem exists_multi_of_known?_inverse (h : ledger.known? serial .inverse = some number) :
    exists multi, ledger.known? serial .multi = some multi ∧
      ledger.lookup (.multimap multi) = some number := by
  cases hmulti : ledger.known? serial .multi with
  | none =>
      rw [known?_inverse_of_none hmulti] at h
      cases h
  | some multi =>
      rw [known?_inverse_of_multi hmulti] at h
      exact ⟨multi, rfl, h⟩

theorem Sound.known?_injective (h : ledger.Sound)
    (hnumber : ledger.known? serial kind = some number)
    (hother : ledger.known? other otherKind = some number) :
    serial = other ∧ kind = otherKind := by
  by_cases hkind : kind = .inverse
  · subst hkind
    rcases exists_multi_of_known?_inverse hnumber with ⟨multi, hmulti, hlookup⟩
    by_cases hsame : otherKind = .inverse
    · subst hsame
      rcases exists_multi_of_known?_inverse hother with ⟨third, hthird, hlookup'⟩
      injection h.injective _ _ _ hlookup hlookup' with heq
      subst heq
      injection h.injective _ _ _ hmulti hthird with hserial
      exact ⟨hserial, rfl⟩
    · rw [known?_of_ne_inverse ledger other hsame] at hother
      cases h.injective _ _ _ hlookup hother
  · rw [known?_of_ne_inverse ledger serial hkind] at hnumber
    by_cases hsame : otherKind = .inverse
    · subst hsame
      rcases exists_multi_of_known?_inverse hother with ⟨third, _, hlookup⟩
      cases h.injective _ _ _ hnumber hlookup
    · rw [known?_of_ne_inverse ledger other hsame] at hother
      injection h.injective _ _ _ hnumber hother with hserial hkinds
      exact ⟨hserial, hkinds⟩

/-- What was handed out for an instance tells later on whether it is the same one. -/
theorem view_eq_iff (h : ledger.Sound) (hnumber : ledger.known? serial kind = some number)
    (second : Nat) (otherKind : ViewKind) :
    number = (ledger.view second otherKind).1 ↔ serial = second ∧ kind = otherKind := by
  constructor
  · intro heq
    have hsound := h.view second otherKind
    have hkept := known?_view_mono h second otherKind hnumber
    have hgiven := known?_view_self ledger second otherKind
    rw [← heq] at hgiven
    exact hsound.known?_injective hkept hgiven
  · rintro ⟨rfl, rfl⟩
    exact (view_of_known? h hnumber).symm

theorem shares_eq (h : ledger.Sound) (left right : Nat) (kind : ViewKind) :
    (ledger.shares left right kind).1 = (left == right) := by
  have hknown := known?_view_self ledger left kind
  have hiff := view_eq_iff (h.view left kind) hknown right kind
  show ((ledger.view left kind).1 == ((ledger.view left kind).2.view right kind).1) = _
  rw [Bool.eq_iff_iff, beq_iff_eq, beq_iff_eq, hiff]
  exact and_iff_left rfl

theorem Sound.shares (h : ledger.Sound) (left right : Nat) (kind : ViewKind) :
    (ledger.shares left right kind).2.Sound :=
  (h.view left kind).view right kind

end Views
end ViewLedger
end Session
end SealedMap
