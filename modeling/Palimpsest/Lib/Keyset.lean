import Mathlib.Data.List.Sort
import Mathlib.Data.Set.Card
import Mathlib.Order.Basic

/-!
# Keyset pagination

Rows are listed in the order of a key, page by page: a page holds the first rows behind a key,
and names the key of its last row where there are more (`Keyset.page`). A listing asks for the
next page behind that key until there is none (`Keyset.walk`), while rows may be added between
two pages.

Whatever is added, a listing has the rows in order and none twice, and where it has come to a key
it has all the rows up to that key that were there when it began (`Keyset.walked`). It ends
where the rows ever added have finitely many keys (`Keyset.exists_ended`), and if none are added
it is the sorted list of the rows (`Keyset.items_eq_sorted`).

A server that names a key in a cursor is followed in the same way (`Keyset.follow`), and if it
reads its cursors back the pages are the same (`Keyset.follow_eq_walk`): the listing it gives is
complete (`Keyset.complete`).
-/

namespace Keyset

variable {ρ κ : Type*} [LinearOrder κ] (key : ρ → κ)

/-- The rows in the order of their keys. -/
def sorted (rows : List ρ) : List ρ := rows.insertionSort fun a b => key a ≤ key b

/-- The rows behind a key. -/
def later (after : Option κ) (rows : List ρ) : List ρ :=
  rows.filter fun r => after.all fun k => k < key r

/-- Some rows, and the key behind which the next ones are. -/
structure Page (ρ κ : Type*) where
  items : List ρ
  next : Option κ

/-- The first rows behind a key. One more is looked for, to see whether there are more. -/
def page (limit : ℕ) (after : Option κ) (rows : List ρ) : Page ρ κ :=
  let found := (sorted key (later key after rows)).take (limit + 1)
  ⟨found.take limit, if limit < found.length then (found[limit - 1]?).map key else none⟩

variable {key} {limit : ℕ} {after : Option κ} {rows : List ρ} {r s : ρ}

theorem mem_later : r ∈ later key after rows ↔ r ∈ rows ∧ ∀ k ∈ after, k < key r := by
  rw [later, List.mem_filter, Option.all_eq_true]
  simp

theorem mem_sorted : r ∈ sorted key rows ↔ r ∈ rows := List.mem_insertionSort _

/-- Different rows have different keys. -/
def Distinct (key : ρ → κ) (rows : List ρ) : Prop := (rows.map key).Nodup

theorem pairwise_sorted (h : Distinct key rows) :
    (sorted key rows).Pairwise fun a b => key a < key b := by
  have htotal : Std.Total fun a b : ρ => key a ≤ key b := ⟨fun a b => le_total (key a) (key b)⟩
  have htrans : IsTrans ρ fun a b => key a ≤ key b := ⟨fun _ _ _ => le_trans⟩
  have hle : (sorted key rows).Pairwise fun a b => key a ≤ key b :=
    List.pairwise_insertionSort _ _
  have hne : (sorted key rows).Pairwise fun a b => key a ≠ key b := by
    have hperm : ((sorted key rows).map key).Perm (rows.map key) :=
      (List.perm_insertionSort _ rows).map key
    exact List.pairwise_map.mp (hperm.nodup_iff.mpr h)
  exact (hle.and hne).imp fun h => lt_of_le_of_ne h.1 h.2

theorem Distinct.later (h : Distinct key rows) : Distinct key (later key after rows) :=
  h.sublist (List.filter_sublist.map key)

/-! ### One page -/

theorem page_items : (page key limit after rows).items =
    (sorted key (later key after rows)).take limit := by
  rw [page, List.take_take, Nat.min_eq_left (Nat.le_succ limit)]

theorem pairwise_page (h : Distinct key rows) :
    (page key limit after rows).items.Pairwise fun a b => key a < key b := by
  rw [page_items]
  exact (pairwise_sorted h.later).sublist (List.take_sublist _ _)

theorem of_mem_page (hr : r ∈ (page key limit after rows).items) :
    r ∈ rows ∧ ∀ k ∈ after, k < key r := by
  rw [page_items] at hr
  exact mem_later.mp (mem_sorted.mp (List.mem_of_mem_take hr))

/-- A last page has all the rows that are left. -/
theorem mem_page_of_next_eq_none (hlimit : 0 < limit)
    (hnext : (page key limit after rows).next = none) (hr : r ∈ rows)
    (hafter : ∀ k ∈ after, k < key r) : r ∈ (page key limit after rows).items := by
  have hshort : (sorted key (later key after rows)).length ≤ limit := by
    by_contra hlong
    rw [Nat.not_le] at hlong
    have hfound : limit < ((sorted key (later key after rows)).take (limit + 1)).length := by
      rw [List.length_take]
      omega
    rw [page] at hnext
    dsimp only at hnext
    rw [if_pos hfound, Option.map_eq_none_iff, List.getElem?_eq_none_iff] at hnext
    omega
  rw [page_items, List.take_of_length_le hshort]
  exact mem_sorted.mpr (mem_later.mpr ⟨hr, hafter⟩)

/-- Where there are more rows than a page holds, the page ends with its last row. -/
theorem take_eq_append {l : List ρ} (hlimit : 0 < limit) (hlong : limit < l.length) :
    ∃ init last tail, l = init ++ last :: tail ∧ l.take limit = init ++ [last] ∧
      l[limit - 1]? = some last := by
  have hlast : limit - 1 < l.length := by omega
  have hsucc : limit - 1 + 1 = limit := by omega
  refine ⟨l.take (limit - 1), l[limit - 1], l.drop limit, ?_, ?_, List.getElem?_eq_getElem hlast⟩
  · have hdrop := List.drop_eq_getElem_cons hlast
    rw [hsucc] at hdrop
    rw [← hdrop, List.take_append_drop]
  · have htake := List.take_append_getElem hlast
    rw [hsucc] at htake
    exact htake.symm

/-- Another page has as many rows as it can hold, and the key it names is that of its last row:
it has all the rows up to that key. -/
theorem page_of_next_eq_some (hrows : Distinct key rows) (hlimit : 0 < limit) {k : κ}
    (hnext : (page key limit after rows).next = some k) :
    (page key limit after rows).items.length = limit ∧
      (∃ last ∈ (page key limit after rows).items, key last = k) ∧
      (∀ r ∈ (page key limit after rows).items, key r ≤ k) ∧
      ∀ r ∈ rows, (∀ k' ∈ after, k' < key r) → key r ≤ k →
        r ∈ (page key limit after rows).items := by
  -- A key is handed out only where one more row was found than the page can hold.
  have hlong : limit < (sorted key (later key after rows)).length := by
    by_contra hshort
    have hfound : ¬limit < ((sorted key (later key after rows)).take (limit + 1)).length := by
      rw [List.length_take]
      omega
    rw [page] at hnext
    dsimp only at hnext
    rw [if_neg hfound] at hnext
    cases hnext
  -- So the page is a proper prefix of the sorted rows, and `last` ends it.
  obtain ⟨init, last, tail, hsplit, htake, hget⟩ := take_eq_append hlimit hlong
  have hk : key last = k := by
    have hfound : limit < ((sorted key (later key after rows)).take (limit + 1)).length := by
      rw [List.length_take]
      omega
    rw [page] at hnext
    dsimp only at hnext
    rw [if_pos hfound, List.getElem?_take_of_lt (by omega), hget] at hnext
    exact Option.some.inj hnext
  have hpairwise : (sorted key (later key after rows)).Pairwise fun a b => key a < key b :=
    pairwise_sorted hrows.later
  rw [hsplit, List.pairwise_append, List.pairwise_cons] at hpairwise
  obtain ⟨-, ⟨htail, -⟩, hinit⟩ := hpairwise
  rw [page_items]
  refine ⟨by rw [List.length_take]; omega, ⟨last, by rw [htake]; simp, hk⟩, ?_, ?_⟩
  · intro r hr
    rw [htake, List.mem_append, List.mem_singleton] at hr
    rcases hr with hr | rfl
    · exact hk ▸ (hinit r hr last List.mem_cons_self).le
    · exact hk.le
  · intro r hr hafter hle
    have hmem : r ∈ sorted key (later key after rows) := mem_sorted.mpr (mem_later.mpr ⟨hr, hafter⟩)
    rw [hsplit, List.mem_append, List.mem_cons] at hmem
    rw [htake, List.mem_append, List.mem_singleton]
    rcases hmem with hmem | hmem | hmem
    · exact Or.inl hmem
    · exact Or.inr hmem
    · -- the rows behind the page have larger keys
      exact absurd (htail r hmem) (not_lt_of_ge (hk ▸ hle))

/-! ### One page after the other -/

variable {db : ℕ → List ρ} {n : ℕ}

variable (key limit db) in
/-- The rows of the first pages, and the key behind which the next page begins: nothing where there
is no next page. The first page begins behind no key. -/
def walk : ℕ → List ρ × Option (Option κ)
  | 0 => ([], some none)
  | n + 1 =>
    match walk n with
    | (items, none) => (items, none)
    | (items, some after) =>
      (items ++ (page key limit after (db n)).items, (page key limit after (db n)).next.map some)

variable (key limit db n) in
/-- What is known of the rows of the first `n` pages, and of where the next one begins. -/
structure Walked (items : List ρ) (cursor : Option (Option κ)) : Prop where
  pairwise : items.Pairwise fun a b => key a < key b
  of_mem : ∀ r ∈ items, r ∈ db n
  le : ∀ after ∈ cursor, ∀ r ∈ items, ∃ k ∈ after, key r ≤ k
  mem : ∀ r ∈ db 0, (∀ after ∈ cursor, ∃ k ∈ after, key r ≤ k) → r ∈ items
  full : cursor.isSome → items.length = n * limit

section Growing

variable (hdb : ∀ n, Distinct key (db n)) (hgrow : ∀ n, db n ⊆ db (n + 1)) (hlimit : 0 < limit)

include hgrow in
omit [LinearOrder κ] in
theorem subset_of_grow (n : ℕ) : db 0 ⊆ db n := by
  induction n with
  | zero => exact fun _ hr => hr
  | succ n ih => exact fun _ hr => hgrow n (ih hr)

include hdb hgrow hlimit in
/-- One more page. -/
theorem Walked.step {items : List ρ} (h : Walked key limit db n items (some after)) :
    Walked key limit db (n + 1) (items ++ (page key limit after (db n)).items)
      ((page key limit after (db n)).next.map some) where
  pairwise := by
    refine List.pairwise_append.mpr ⟨h.pairwise, pairwise_page (hdb n), fun a ha b hb => ?_⟩
    obtain ⟨k, hk, hle⟩ := h.le after rfl a ha
    exact lt_of_le_of_lt hle ((of_mem_page hb).2 k hk)
  of_mem := by
    intro r hr
    rcases List.mem_append.mp hr with hr | hr
    · exact hgrow n (h.of_mem r hr)
    · exact hgrow n (of_mem_page hr).1
  le := by
    intro after' hafter' r hr
    obtain ⟨k, hnext, rfl⟩ := Option.map_eq_some_iff.mp hafter'
    obtain ⟨-, ⟨last, hlast, rfl⟩, hle, -⟩ := page_of_next_eq_some (hdb n) hlimit hnext
    refine ⟨key last, rfl, ?_⟩
    rcases List.mem_append.mp hr with hr | hr
    · obtain ⟨k, hk, hrk⟩ := h.le after rfl r hr
      exact hrk.trans ((of_mem_page hlast).2 k hk).le
    · exact hle r hr
  mem := by
    intro r hr hcursor
    rw [List.mem_append]
    -- A row that was there from the start is on an earlier page or behind all of them.
    by_cases hbefore : ∃ k ∈ after, key r ≤ k
    · exact Or.inl (h.mem r hr fun after' h' => Option.some.inj h' ▸ hbefore)
    · have hafter : ∀ k ∈ after, k < key r := fun k hk => by
        by_contra hle
        exact hbefore ⟨k, hk, not_lt.mp hle⟩
      have hnow : r ∈ db n := subset_of_grow hgrow n hr
      refine Or.inr ?_
      cases hnext : (page key limit after (db n)).next with
      | none => exact mem_page_of_next_eq_none hlimit hnext hnow hafter
      | some k =>
        obtain ⟨k', hk', hle⟩ := hcursor (some k) (by rw [hnext]; rfl)
        obtain rfl : k = k' := Option.some.inj hk'
        exact (page_of_next_eq_some (hdb n) hlimit hnext).2.2.2 r hnow hafter hle
  full := by
    intro hsome
    obtain ⟨k, hnext⟩ := Option.isSome_iff_exists.mp (Option.isSome_map ▸ hsome)
    have hlength := (page_of_next_eq_some (hdb n) hlimit hnext).1
    rw [List.length_append, h.full rfl, hlength, Nat.succ_mul]

include hdb hgrow hlimit in
/-- **The rows of the first pages are in order**, and up to where the next page begins they are
all the rows there were when the listing began. -/
theorem walked (n : ℕ) : Walked key limit db n (walk key limit db n).1 (walk key limit db n).2 := by
  induction n with
  | zero =>
    exact ⟨List.Pairwise.nil, by simp [walk], by simp [walk], by simp [walk], by simp [walk]⟩
  | succ n ih =>
    rw [walk]
    cases hwalk : walk key limit db n with
    | mk items cursor =>
      rw [hwalk] at ih
      cases cursor with
      | none =>
        exact ⟨ih.pairwise, fun r hr => hgrow n (ih.of_mem r hr), by simp,
          fun r hr _ => ih.mem r hr (by simp), by simp⟩
      | some after => exact ih.step hdb hgrow hlimit

theorem Walked.nodup {items : List ρ} {cursor : Option (Option κ)}
    (h : Walked key limit db n items cursor) : (items.map key).Nodup :=
  List.pairwise_map.mpr (h.pairwise.imp fun hlt => hlt.ne)

include hdb hgrow hlimit in
/-- **A listing ends** where the rows that are ever there have finitely many keys. -/
theorem exists_ended {keys : Set κ} (hfinite : keys.Finite)
    (hkeys : ∀ n, ∀ r ∈ db n, key r ∈ keys) : ∃ n, (walk key limit db n).2 = none := by
  by_contra hnever
  have hwalk := walked hdb hgrow hlimit (keys.ncard + 1)
  have hsome : (walk key limit db (keys.ncard + 1)).2.isSome :=
    Option.isSome_iff_ne_none.mpr fun h => hnever ⟨_, h⟩
  -- the pages so far are full, and have more keys than there are
  have hlength := hwalk.full hsome
  set found := (walk key limit db (keys.ncard + 1)).1.map key with hfound
  have hle : found.length ≤ keys.ncard := by
    classical
    rw [← List.toFinset_card_of_nodup hwalk.nodup, ← Set.ncard_coe_finset]
    refine Set.ncard_le_ncard (fun k hk => ?_) hfinite
    obtain ⟨r, hr, rfl⟩ := List.mem_map.mp (List.mem_toFinset.mp hk)
    exact hkeys _ r (hwalk.of_mem r hr)
  rw [hfound, List.length_map, hlength] at hle
  have := Nat.le_mul_of_pos_right (keys.ncard + 1) hlimit
  omega

include hdb hgrow hlimit in
/-- **An ended listing of rows that stay as they are is the sorted list of them.** -/
theorem items_eq_sorted (hstill : ∀ n, db n = db 0) (hend : (walk key limit db n).2 = none) :
    (walk key limit db n).1 = sorted key (db 0) := by
  have hwalk := walked hdb hgrow hlimit n
  have hsorted := pairwise_sorted (hdb 0)
  have hmem : ∀ r, r ∈ (walk key limit db n).1 ↔ r ∈ sorted key (db 0) := fun r => by
    rw [mem_sorted]
    refine ⟨fun hr => hstill n ▸ hwalk.of_mem r hr, fun hr => hwalk.mem r hr ?_⟩
    rw [hend]
    simp
  have hnodup : ∀ l : List ρ, (l.Pairwise fun a b => key a < key b) → l.Nodup := fun l hl =>
    hl.imp fun hlt heq => (heq ▸ hlt).false
  refine ((List.perm_ext_iff_of_nodup (hnodup _ hwalk.pairwise) (hnodup _ hsorted)).mpr
    hmem).eq_of_pairwise (fun a b _ _ hab hba => absurd hab hba.not_gt) hwalk.pairwise hsorted

end Growing

/-! ### Following a server -/

section Follow

variable {γ ε : Type*}

/-- The rows of the first pages a server answers with, and the cursor of the next request: nothing
where there is no next page. The first request has no cursor. -/
def follow (request : ℕ → Option γ → Except ε (Page ρ γ)) :
    ℕ → Except ε (List ρ × Option (Option γ))
  | 0 => .ok ([], some none)
  | n + 1 => do
    match ← follow request n with
    | (items, none) => .ok (items, none)
    | (items, some cursor) =>
      let answer ← request n cursor
      .ok (items ++ answer.items, answer.next.map some)

/-- **A server that reads its cursors back is followed page by page.** -/
theorem follow_eq_walk {request : ℕ → Option γ → Except ε (Page ρ γ)} {encode : κ → γ}
    {Held : κ → Prop} (hdb : ∀ n, Distinct key (db n)) (hlimit : 0 < limit)
    (hheld : ∀ n, ∀ r ∈ db n, Held (key r))
    (hrequest : ∀ n after, (∀ k ∈ after, Held k) → request n (after.map encode) =
      .ok ⟨(page key limit after (db n)).items, (page key limit after (db n)).next.map encode⟩)
    (n : ℕ) : (∀ after ∈ (walk key limit db n).2, ∀ k ∈ after, Held k) ∧ follow request n =
      .ok ((walk key limit db n).1, (walk key limit db n).2.map (Option.map encode)) := by
  induction n with
  | zero => exact ⟨by simp [walk], rfl⟩
  | succ n ih =>
    obtain ⟨hafter, hfollow⟩ := ih
    rw [follow, hfollow, walk]
    cases hwalk : walk key limit db n with
    | mk items cursor =>
      rw [hwalk] at hafter
      cases cursor with
      | none => exact ⟨by simp, rfl⟩
      | some after =>
        refine ⟨fun after' hafter' k hk => ?_, ?_⟩
        · obtain ⟨k', hnext, rfl⟩ := Option.map_eq_some_iff.mp hafter'
          obtain rfl : k' = k := Option.some.inj hk
          -- the cursor names the key of a row
          obtain ⟨last, hlast, rfl⟩ := (page_of_next_eq_some (hdb n) hlimit hnext).2.1
          exact hheld n last (of_mem_page hlast).1
        · simp only [bind, Except.bind, Option.map_some, hrequest n after (hafter after rfl),
            Option.map_map, Function.comp_def]

/-- **A listing that is followed ends**, and has every row there was at its beginning once, in
order. What else it has was added later; if nothing was, it is the sorted list of the rows. -/
def Complete [DecidableEq ρ] (key : ρ → κ) (db : ℕ → List ρ)
    (request : ℕ → Option γ → Except ε (Page ρ γ)) : Prop :=
  ∃ n items, follow request n = .ok (items, none) ∧
    (items.Pairwise fun a b => key a < key b) ∧ (∀ r ∈ db 0, items.count r = 1) ∧
    (∀ r ∈ items, r ∈ db n) ∧ ((∀ i, db i = db 0) → items = sorted key (db 0))

/-- Pages that are those of growing rows, of finitely many keys, make a complete listing. -/
theorem complete [DecidableEq ρ] {request : ℕ → Option γ → Except ε (Page ρ γ)} {encode : κ → γ}
    (Held : κ → Prop) (hdb : ∀ n, Distinct key (db n)) (hgrow : ∀ n, db n ⊆ db (n + 1))
    (hlimit : 0 < limit) (hfinite : {k | Held k}.Finite) (hheld : ∀ n, ∀ r ∈ db n, Held (key r))
    (hrequest : ∀ n after, (∀ k ∈ after, Held k) → request n (after.map encode) =
      .ok ⟨(page key limit after (db n)).items, (page key limit after (db n)).next.map encode⟩) :
    Complete key db request := by
  obtain ⟨n, hend⟩ := exists_ended hdb hgrow hlimit hfinite hheld
  have hwalk := walked hdb hgrow hlimit n
  obtain ⟨-, hfollow⟩ := follow_eq_walk hdb hlimit hheld hrequest n
  rw [hend] at hfollow hwalk
  have hnodup : (walk key limit db n).1.Nodup := hwalk.nodup.of_map key
  refine ⟨n, (walk key limit db n).1, hfollow, hwalk.pairwise, fun r hr => ?_, hwalk.of_mem,
    fun hstill => items_eq_sorted hdb hgrow hlimit hstill hend⟩
  exact List.count_eq_one_of_mem hnodup (hwalk.mem r hr (by simp))

end Follow

end Keyset
