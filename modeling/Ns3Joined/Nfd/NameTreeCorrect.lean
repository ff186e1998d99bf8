import Ns3Joined.Library.TracedRun
import Ns3Joined.Nfd.NameTreeTable

/-!
# The name tree is a tree of names

* `Names`: no two entries have one name, and the entry of every prefix is there, as the parent of
  the entry that is longer by one component.
* `Listed`: an entry lists those that it is the parent of, each once.
* `Keeps`: the table has the entries of such a tree.
* `Keeps.lookup`, `Keeps.eraseIfEmpty`: what the calls do keeps it.
* `IsLongest`: what a longest prefix match is to find. All three ways find it.
-/

namespace Ns3Joined.Nfd.name_tree

open List Function ExceptFold Option Bool
open NameTree (ancestorFrom eraseIfEmpty eraseLoop findExactMatch findLongestOfEntry
  findLongestOfPitEntry findLongestPrefixMatch nteDepth ofOptions select withoutPitEntry)

open Ndn (Name Component)
open Hashtable
open LinkedChains (Chains Numbered)

/-! ### Names -/

structure Names (t : ℕ → Option Entry) : Prop where
  unique : ∀ p q e e', t p = some e → t q = some e' → e.m_name = e'.m_name → p = q
  depth : ∀ p e, t p = some e → e.m_name.length ≤ getMaxDepth
  root : ∀ p e, t p = some e → e.m_name = [] → e.m_parent = none
  parent : ∀ p e, t p = some e → e.m_name ≠ [] →
    ∃ q e', e.m_parent = some q ∧ t q = some e' ∧ e'.m_name = e.m_name.dropLast
  /-- A PIT entry is at the entry of its name, without a digest and no longer than it may be. -/
  pit : ∀ p e, t p = some e → ∀ pitEntry ∈ e.m_pitEntries,
    e.m_name = pitEntry.name.take (nteDepth pitEntry.name)

variable {t : ℕ → Option Entry} {p q r : ℕ} {e e' x : Entry} {name : Name}

/-- What is at a place of an updated tree. -/
theorem update_some_iff : update t p (some x) q = some e ↔
    q = p ∧ x = e ∨ q ≠ p ∧ t q = some e := by
  by_cases hq : q = p
  · rw [hq, update_self, some_inj]
    exact ⟨fun h => .inl ⟨rfl, h⟩, fun h => h.elim And.right fun h => absurd rfl h.1⟩
  · rw [update_of_ne hq]
    exact ⟨fun h => .inr ⟨hq, h⟩, fun h => h.elim (fun h => absurd h.1 hq) And.right⟩

/-- What is at a place of a tree with one place cleared. -/
theorem update_none_iff : update t p none q = some e ↔ q ≠ p ∧ t q = some e := by
  by_cases hq : q = p
  · rw [hq, update_self]
    exact ⟨nofun, fun h => absurd rfl h.1⟩
  · rw [update_of_ne hq]
    exact ⟨fun h => ⟨hq, h⟩, And.right⟩

/-- A new entry, with its parent. -/
theorem Names.add (ht : Names t) (hp : t p = none)
    (hnew : ∀ q e, t q = some e → e.m_name ≠ x.m_name) (hdepth : x.m_name.length ≤ getMaxDepth)
    (hroot : x.m_name = [] → x.m_parent = none)
    (hparent : x.m_name ≠ [] →
      ∃ q e', x.m_parent = some q ∧ t q = some e' ∧ e'.m_name = x.m_name.dropLast)
    (hpit : x.m_pitEntries = []) : Names (update t p (some x)) where
  unique := fun q r e e' hq hr heq => by
    obtain ⟨hqp, rfl⟩ | ⟨-, hq'⟩ := update_some_iff.mp hq <;>
      obtain ⟨hrp, rfl⟩ | ⟨-, hr'⟩ := update_some_iff.mp hr
    · exact hqp.trans hrp.symm
    · exact absurd heq.symm (hnew r e' hr')
    · exact absurd heq (hnew q e hq')
    · exact ht.unique q r e e' hq' hr' heq
  depth := fun q e hq => by
    obtain ⟨rfl, rfl⟩ | ⟨-, hq⟩ := update_some_iff.mp hq
    · exact hdepth
    · exact ht.depth q e hq
  root := fun q e hq => by
    obtain ⟨rfl, rfl⟩ | ⟨-, hq⟩ := update_some_iff.mp hq
    · exact hroot
    · exact ht.root q e hq
  parent := fun q e hq hname => by
    have hold : ∃ r e', e.m_parent = some r ∧ t r = some e' ∧ e'.m_name = e.m_name.dropLast := by
      obtain ⟨rfl, rfl⟩ | ⟨-, hq⟩ := update_some_iff.mp hq
      · exact hparent hname
      · exact ht.parent q e hq hname
    obtain ⟨r, e', hr, he', hlast⟩ := hold
    have hne : r ≠ p := fun heq => by
      rw [heq, hp] at he'
      cases he'
    exact ⟨r, e', hr, update_some_iff.mpr (.inr ⟨hne, he'⟩), hlast⟩
  pit := fun q e hq => by
    obtain ⟨rfl, rfl⟩ | ⟨-, hq⟩ := update_some_iff.mp hq
    · rw [hpit]
      nofun
    · exact ht.pit q e hq

/-- An entry gets other children or table entries. -/
theorem Names.modify (ht : Names t) (hp : t p = some e) (hname : x.m_name = e.m_name)
    (hparent : x.m_parent = e.m_parent)
    (hpit : ∀ pitEntry ∈ x.m_pitEntries,
      x.m_name = pitEntry.name.take (nteDepth pitEntry.name)) :
    Names (update t p (some x)) := by
  -- what was there is there, with its name
  have hstays : ∀ q e', t q = some e' → ∃ e'', update t p (some x) q = some e'' ∧
      e''.m_name = e'.m_name := fun q e' hq => by
    by_cases heq : q = p
    · rw [heq, update_self]
      rw [heq, hp] at hq
      exact ⟨x, rfl, hname.trans (congrArg Entry.m_name (Option.some.inj hq))⟩
    · exact ⟨e', update_some_iff.mpr (.inr ⟨heq, hq⟩), rfl⟩
  have hwas : ∀ q e', update t p (some x) q = some e' → ∃ e'', t q = some e'' ∧
      e''.m_name = e'.m_name ∧ e''.m_parent = e'.m_parent := fun q e' hq => by
    obtain ⟨rfl, rfl⟩ | ⟨-, hq⟩ := update_some_iff.mp hq
    · exact ⟨e, hp, hname.symm, hparent.symm⟩
    · exact ⟨e', hq, rfl, rfl⟩
  constructor
  · intro q r e₁ e₂ hq hr heq
    obtain ⟨e₃, h₃, hname₃, -⟩ := hwas q e₁ hq
    obtain ⟨e₄, h₄, hname₄, -⟩ := hwas r e₂ hr
    exact ht.unique q r e₃ e₄ h₃ h₄ (hname₃.trans (heq.trans hname₄.symm))
  · intro q e₁ hq
    obtain ⟨e₃, h₃, hname₃, -⟩ := hwas q e₁ hq
    exact hname₃ ▸ ht.depth q e₃ h₃
  · intro q e₁ hq hroot
    obtain ⟨e₃, h₃, hname₃, hparent₃⟩ := hwas q e₁ hq
    exact hparent₃ ▸ ht.root q e₃ h₃ (hname₃.trans hroot)
  · intro q e₁ hq hne
    obtain ⟨e₃, h₃, hname₃, hparent₃⟩ := hwas q e₁ hq
    obtain ⟨r, e₄, hr, h₄, hlast⟩ := ht.parent q e₃ h₃ (hname₃ ▸ hne)
    obtain ⟨e₅, h₅, hname₅⟩ := hstays r e₄ h₄
    exact ⟨r, e₅, hparent₃ ▸ hr, h₅, by rw [hname₅, hlast, hname₃]⟩
  · intro q e₁ hq
    obtain ⟨rfl, rfl⟩ | ⟨-, hq⟩ := update_some_iff.mp hq
    · exact hpit
    · exact ht.pit q e₁ hq

/-! ### Parents and children -/

def parentOf (t : ℕ → Option Entry) (p : ℕ) : Option ℕ := (t p).bind Entry.m_parent

/-- The parent of a node in the tree. -/
theorem parentOf_eq (hp : t p = some e) : parentOf t p = e.m_parent := by
  unfold parentOf
  rw [hp]
  rfl

/-- The parents after an update. -/
theorem parentOf_update (x : Option Entry) : parentOf (update t p x) =
    update (parentOf t) p (x.bind Entry.m_parent) := by
  funext q
  by_cases hq : q = p
  · rw [hq, parentOf, update_self, update_self]
  · rw [parentOf, update_of_ne hq, update_of_ne hq]
    rfl

/-- The parents do not change where an entry keeps its own. -/
theorem parentOf_modify (hp : t p = some e) (hparent : x.m_parent = e.m_parent) :
    parentOf (update t p (some x)) = parentOf t := by
  rw [parentOf_update, bind_some, hparent, ← parentOf_eq hp]
  exact update_eq_self p (parentOf t)

/-- Removing a leaf keeps the names. -/
theorem Names.remove (ht : Names t) (hleaf : ∀ q, parentOf t q ≠ some p) :
    Names (update t p none) := by
  constructor
  · exact fun q r e e' hq hr => ht.unique q r e e' (update_none_iff.mp hq).2
      (update_none_iff.mp hr).2
  · exact fun q e hq => ht.depth q e (update_none_iff.mp hq).2
  · exact fun q e hq => ht.root q e (update_none_iff.mp hq).2
  · intro q e hq hne
    obtain ⟨-, hq⟩ := update_none_iff.mp hq
    obtain ⟨r, e', hr, he', hlast⟩ := ht.parent q e hq hne
    have hrp : r ≠ p := fun heq => hleaf q ((parentOf_eq hq).trans (heq ▸ hr))
    exact ⟨r, e', hr, update_none_iff.mpr ⟨hrp, he'⟩, hlast⟩
  · exact fun q e hq => ht.pit q e (update_none_iff.mp hq).2

structure Listed (t : ℕ → Option Entry) : Prop where
  nodup : ∀ q e, t q = some e → e.m_children.Nodup
  children : ∀ q e, t q = some e → ∀ p, p ∈ e.m_children ↔ parentOf t p = some q
  /-- Parents are there. -/
  parent : ∀ p q, parentOf t p = some q → ∃ e, t q = some e

/-- Adding a node without relations keeps the lists of children. -/
theorem Listed.add (ht : Listed t) (hp : t p = none) (hparent : x.m_parent = none)
    (hchildren : x.m_children = []) : Listed (update t p (some x)) := by
  have hnot : parentOf t p = none := by
    unfold parentOf
    rw [hp]
    rfl
  have hsame : parentOf (update t p (some x)) = parentOf t := by
    rw [parentOf_update, bind_some, hparent, ← hnot]
    exact update_eq_self p (parentOf t)
  constructor
  · intro q e hq
    obtain ⟨rfl, rfl⟩ | ⟨-, hq⟩ := update_some_iff.mp hq
    · rw [hchildren]
      exact nodup_nil
    · exact ht.nodup q e hq
  · intro q e hq r
    rw [hsame]
    obtain ⟨rfl, rfl⟩ | ⟨-, hq⟩ := update_some_iff.mp hq
    · rw [hchildren]
      refine iff_of_false not_mem_nil fun hr => ?_
      obtain ⟨e, he⟩ := ht.parent r q hr
      rw [hp] at he
      cases he
    · exact ht.children q e hq r
  · intro q r hq
    rw [hsame] at hq
    obtain ⟨e, he⟩ := ht.parent q r hq
    by_cases hr : r = p
    · exact ⟨x, update_some_iff.mpr (.inl ⟨hr, rfl⟩)⟩
    · exact ⟨e, update_some_iff.mpr (.inr ⟨hr, he⟩)⟩

/-- What is at a place of a tree updated twice. -/
theorem update_update_iff {y : Entry} (hpq : p ≠ q) :
    update (update t p (some x)) q (some y) r = some e ↔
      r = q ∧ y = e ∨ r = p ∧ x = e ∨ r ≠ q ∧ r ≠ p ∧ t r = some e := by
  rw [update_some_iff, update_some_iff]
  constructor
  · rintro (h | ⟨hq, h | ⟨hp, h⟩⟩)
    · exact .inl h
    · exact .inr (.inl h)
    · exact .inr (.inr ⟨hq, hp, h⟩)
  · rintro (h | ⟨rfl, h⟩ | ⟨hq, hp, h⟩)
    · exact .inl h
    · exact .inr ⟨hpq, .inl ⟨rfl, h⟩⟩
    · exact .inr ⟨hq, .inr ⟨hp, h⟩⟩

section

variable (ht : Listed t) (hp : t p = some x)

include ht hp

/-- `setParent`. -/
theorem Listed.link (hparent : x.m_parent = none) (hq : t q = some e') (hpq : p ≠ q) :
    Listed (update (update t p (some { x with m_parent := some q })) q
      (some { e' with m_children := e'.m_children ++ [p] })) := by
  have hparents : parentOf (update (update t p
      (some { x with m_parent := some q })) q
      (some { e' with m_children := e'.m_children ++ [p] })) =
      update (parentOf t) p (some q) := by
    rw [parentOf_update, parentOf_update]
    show update (update (parentOf t) p (some q)) q e'.m_parent = _
    have hsame : e'.m_parent = update (parentOf t) p (some q) q := by
      rw [update_of_ne hpq.symm, parentOf_eq hq]
    rw [hsame, update_eq_self]
  have hnot : ∀ r, parentOf t p ≠ some r := fun r hr => by
    rw [parentOf_eq hp, hparent] at hr
    cases hr
  -- nobody else's children change
  have hother : ∀ r ≠ q, ∀ c, update (parentOf t) p (some q) c = some r ↔
      parentOf t c = some r := fun r hr c => by
    by_cases hc : c = p
    · rw [hc, update_self]
      exact iff_of_false (fun heq => hr (Option.some.inj heq).symm) (hnot r)
    · rw [update_of_ne hc]
  constructor
  · intro r e hr
    obtain ⟨rfl, rfl⟩ | ⟨rfl, rfl⟩ | ⟨-, -, hr⟩ := (update_update_iff hpq).mp hr
    · refine nodup_append.mpr ⟨ht.nodup r e' hq, nodup_singleton p, ?_⟩
      rintro c hc _ hd rfl
      obtain rfl := mem_singleton.mp hd
      exact hnot r ((ht.children r e' hq c).mp hc)
    · exact ht.nodup r x hp
    · exact ht.nodup r e hr
  · intro r e hr c
    rw [hparents]
    obtain ⟨rfl, rfl⟩ | ⟨rfl, rfl⟩ | ⟨hne, -, hr⟩ := (update_update_iff hpq).mp hr
    · show c ∈ e'.m_children ++ [p] ↔ _
      rw [mem_append, mem_singleton, ht.children r e' hq c]
      by_cases hc : c = p
      · rw [hc, update_self]
        exact iff_of_true (.inr rfl) rfl
      · rw [update_of_ne hc]
        exact or_iff_left hc
    · rw [hother r hpq]
      exact ht.children r x hp c
    · rw [hother r hne]
      exact ht.children r e hr c
  · intro c r hc
    rw [hparents] at hc
    by_cases hrq : r = q
    · exact ⟨_, (update_update_iff hpq).mpr (.inl ⟨hrq, rfl⟩)⟩
    · obtain ⟨e, he⟩ := ht.parent c r ((hother r hrq c).mp hc)
      by_cases hrp : r = p
      · exact ⟨_, (update_update_iff hpq).mpr (.inr (.inl ⟨hrp, rfl⟩))⟩
      · exact ⟨e, (update_update_iff hpq).mpr (.inr (.inr ⟨hrq, hrp, he⟩))⟩

/-- `unsetParent`. -/
theorem Listed.unlink (hparent : x.m_parent = some q) (hq : t q = some e') (hpq : p ≠ q) :
    Listed (update (update t q
      (some { e' with m_children := e'.m_children.erase p })) p
      (some { x with m_parent := none })) := by
  have hparents : parentOf (update (update t q
      (some { e' with m_children := e'.m_children.erase p })) p
      (some { x with m_parent := none })) = update (parentOf t) p none := by
    rw [parentOf_update, parentOf_update]
    show update (update (parentOf t) q e'.m_parent) p none = _
    rw [← parentOf_eq hq, update_eq_self]
  -- nobody else's children change
  have hother : ∀ r ≠ q, ∀ c, update (parentOf t) p none c = some r ↔
      parentOf t c = some r := fun r hr c => by
    by_cases hc : c = p
    · rw [hc, update_self, parentOf_eq hp, hparent, some_inj]
      exact iff_of_false nofun hr.symm
    · rw [update_of_ne hc]
  constructor
  · intro r e hr
    obtain ⟨rfl, rfl⟩ | ⟨rfl, rfl⟩ | ⟨-, -, hr⟩ := (update_update_iff hpq.symm).mp hr
    · exact ht.nodup r x hp
    · exact (ht.nodup r e' hq).erase p
    · exact ht.nodup r e hr
  · intro r e hr c
    rw [hparents]
    obtain ⟨rfl, rfl⟩ | ⟨rfl, rfl⟩ | ⟨-, hne, hr⟩ := (update_update_iff hpq.symm).mp hr
    · rw [hother r hpq]
      exact ht.children r x hp c
    · show c ∈ e'.m_children.erase p ↔ _
      rw [(ht.nodup r e' hq).mem_erase_iff, ht.children r e' hq c]
      by_cases hc : c = p
      · rw [hc, update_self]
        exact iff_of_false (fun h => h.1 rfl) nofun
      · rw [update_of_ne hc]
        exact and_iff_right hc
    · rw [hother r hne]
      exact ht.children r e hr c
  · intro c r hc
    rw [hparents] at hc
    have hcp : c ≠ p := fun heq => by
      rw [heq, update_self] at hc
      cases hc
    rw [update_of_ne hcp] at hc
    obtain ⟨e, he⟩ := ht.parent c r hc
    by_cases hrp : r = p
    · exact ⟨_, (update_update_iff hpq.symm).mpr (.inl ⟨hrp, rfl⟩)⟩
    · by_cases hrq : r = q
      · exact ⟨_, (update_update_iff hpq.symm).mpr (.inr (.inl ⟨hrq, rfl⟩))⟩
      · exact ⟨e, (update_update_iff hpq.symm).mpr (.inr (.inr ⟨hrp, hrq, he⟩))⟩

/-- A node without children is nobody's parent. -/
theorem Listed.leaf (hchildren : x.m_children = []) : ∀ q, parentOf t q ≠ some p := fun q hq => by
  have hmem := (ht.children p x hp q).mpr hq
  rw [hchildren] at hmem
  cases hmem

/-- Removing a node without relations keeps the lists of children. -/
theorem Listed.remove (hparent : x.m_parent = none) (hchildren : x.m_children = []) :
    Listed (update t p none) := by
  have hsame : parentOf (update t p none) = parentOf t := by
    have hnone : (none : Option Entry).bind Entry.m_parent = parentOf t p :=
      ((parentOf_eq hp).trans hparent).symm
    rw [parentOf_update, hnone]
    exact update_eq_self p (parentOf t)
  constructor
  · exact fun q e hq => ht.nodup q e (update_none_iff.mp hq).2
  · intro q e hq
    rw [hsame]
    exact ht.children q e (update_none_iff.mp hq).2
  · intro q r hq
    rw [hsame] at hq
    obtain ⟨e, he⟩ := ht.parent q r hq
    exact ⟨e, update_none_iff.mpr ⟨fun heq => ht.leaf hp hchildren q (heq ▸ hq), he⟩⟩

end

/-- Changing an entry's other fields keeps the lists of children. -/
theorem Listed.modify (ht : Listed t) (hp : t p = some e) (hparent : x.m_parent = e.m_parent)
    (hchildren : x.m_children = e.m_children) : Listed (update t p (some x)) := by
  have hsame := parentOf_modify hp hparent
  constructor
  · intro q e' hq
    obtain ⟨rfl, rfl⟩ | ⟨-, hq⟩ := update_some_iff.mp hq
    · exact hchildren ▸ ht.nodup q e hp
    · exact ht.nodup q e' hq
  · intro q e' hq
    rw [hsame]
    obtain ⟨rfl, rfl⟩ | ⟨-, hq⟩ := update_some_iff.mp hq
    · exact hchildren ▸ ht.children q e hp
    · exact ht.children q e' hq
  · intro q r hq
    rw [hsame] at hq
    obtain ⟨e', he'⟩ := ht.parent q r hq
    by_cases hr : r = p
    · exact ⟨x, update_some_iff.mpr (.inl ⟨hr, rfl⟩)⟩
    · exact ⟨e', update_some_iff.mpr (.inr ⟨hr, he'⟩)⟩

/-! ### The invariant -/

structure Keeps (hash : Component → HashValue) (s : Hashtable) (l : List (List ℕ)) : Prop where
  table : Table hash s l
  names : Names s.tree
  listed : Listed s.tree

variable {hash : Component → HashValue} {s s' : Hashtable} {l : List (List ℕ)}

/-- What is written into an entry leaves the buckets. -/
theorem Hashtable.Table.modifyEntry (ht : Table hash s l) (hp : s.tree p = some e)
    (f : Entry → Entry) (hname : (f e).m_name = e.m_name) :
    ∃ s', s.modifyEntry p f = .ok s' ∧ Table hash s' l ∧
      s'.tree = update s.tree p (some (f e)) := by
  obtain ⟨h, hentry⟩ := exists_entry hp
  obtain ⟨s', hok, hlinks, hbuckets, hpointer, hsize, hentries⟩ := modifyEntry_spec hentry f
  refine ⟨s', hok, ⟨?_, fun q d hq => ?_, hsize.trans ht.size, fun q h' e' hq => ?_⟩,
    tree_update hentries⟩
  · refine ht.chained.congr (fun _ _ => congrFun hlinks _) (fun q _ => ?_) hbuckets
      (Nat.le_of_eq hpointer.symm)
    unfold Hashtable.number
    rw [hentries]
    by_cases hq : q = p
    · rw [hq, update_self, hentry]
      rfl
    · rw [update_of_ne hq]
  · rw [hentries] at hq
    by_cases heq : q = p
    · exact heq ▸ ht.mem p _ hentry
    · rw [update_of_ne heq] at hq
      exact ht.mem q d hq
  · rw [hentries] at hq
    by_cases heq : q = p
    · rw [heq, update_self, some_inj, Prod.mk.injEq] at hq
      obtain ⟨rfl, rfl⟩ := hq
      rw [hname]
      exact ht.hashes p h e hentry
    · rw [update_of_ne heq] at hq
      exact ht.hashes q h' e' hq

/-- A node of the tree can be read. -/
theorem deref_of_tree (hp : s.tree p = some e) :
    ∃ node, s.deref p = .ok node ∧ node.entry = e := by
  obtain ⟨h, hentry⟩ := exists_entry hp
  obtain ⟨node, hnode, -, heq⟩ := exists_node hentry
  exact ⟨node, deref_eq hnode, heq⟩

/-- Table entries come and go. -/
theorem Keeps.modifyEntry (hs : Keeps hash s l) (hp : s.tree p = some e) (f : Entry → Entry)
    (hname : (f e).m_name = e.m_name) (hparent : (f e).m_parent = e.m_parent)
    (hchildren : (f e).m_children = e.m_children)
    (hpit : ∀ pitEntry ∈ (f e).m_pitEntries,
      (f e).m_name = pitEntry.name.take (nteDepth pitEntry.name)) :
    ∃ s', s.modifyEntry p f = .ok s' ∧ Keeps hash s' l := by
  obtain ⟨s', hok, htable, htree⟩ := hs.table.modifyEntry hp f hname
  exact ⟨s', hok, htable, htree ▸ hs.names.modify hp hname hparent hpit,
    htree ▸ hs.listed.modify hp hparent hchildren⟩

/-! ### Parents that are set -/

/-- Setting the parent of a fresh node keeps the table. -/
theorem Hashtable.Table.setParent (ht : Table hash s l) (hp : s.tree p = some x)
    (hq : s.tree q = some e') (hpq : p ≠ q) (hparent : x.m_parent = none) (hname : x.m_name ≠ [])
    (hlast : e'.m_name = x.m_name.dropLast) :
    ∃ s', s.setParent p q = .ok s' ∧ Table hash s' l ∧
      s'.tree = update (update s.tree p (some { x with m_parent := some q })) q
        (some { e' with m_children := e'.m_children ++ [p] }) := by
  obtain ⟨node, hnode, rfl⟩ := deref_of_tree hp
  obtain ⟨above, habove, rfl⟩ := deref_of_tree hq
  obtain ⟨s₁, hok₁, ht₁, htree₁⟩ :=
    ht.modifyEntry hp (fun entry => { entry with m_parent := some q }) rfl
  have hq₁ : s₁.tree q = some above.entry := by
    rw [htree₁, update_of_ne hpq.symm, hq]
  obtain ⟨s₂, hok₂, ht₂, htree₂⟩ := ht₁.modifyEntry hq₁
    (fun entry => { entry with m_children := entry.m_children ++ [p] }) rfl
  refine ⟨s₂, ?_, ht₂, by rw [htree₂, htree₁]⟩
  have hassert : ¬ (node.entry.m_parent ≠ none ∨ node.entry.m_name = [] ∨
      above.entry.m_name ≠ node.entry.m_name.dropLast) := by
    rintro (h | h | h)
    · exact h hparent
    · exact hname h
    · exact h hlast
  unfold Hashtable.setParent
  rw [hnode, ok_bind, habove, ok_bind, if_neg hassert, hok₁,
    ok_bind, hok₂]

/-- Taking a node from its parent keeps the table. -/
theorem Hashtable.Table.unsetParent (ht : Table hash s l) (hp : s.tree p = some x)
    (hq : s.tree q = some e') (hpq : p ≠ q) (hmem : p ∈ e'.m_children) :
    ∃ s', s.unsetParent p q = .ok s' ∧ Table hash s' l ∧
      s'.tree = update (update s.tree q
        (some { e' with m_children := e'.m_children.erase p })) p
        (some { x with m_parent := none }) := by
  obtain ⟨above, habove, rfl⟩ := deref_of_tree hq
  obtain ⟨s₁, hok₁, ht₁, htree₁⟩ :=
    ht.modifyEntry hq (fun entry => { entry with m_children := entry.m_children.erase p }) rfl
  have hp₁ : s₁.tree p = some x := by rw [htree₁, update_of_ne hpq, hp]
  obtain ⟨s₂, hok₂, ht₂, htree₂⟩ :=
    ht₁.modifyEntry hp₁ (fun entry => { entry with m_parent := none }) rfl
  refine ⟨s₂, ?_, ht₂, by rw [htree₂, htree₁]⟩
  unfold Hashtable.unsetParent
  rw [habove, ok_bind, if_neg (not_not.mpr hmem), hok₁, ok_bind, hok₂]

/-! ### Looking up -/

/-- The hashes of the prefixes of a name. -/
theorem hashesFrom_getElem? (h : HashValue) : ∀ (name : Name) (i : ℕ), i ≤ name.length →
    (hashesFrom hash h name)[i]? =
      some ((name.take i).foldl (fun h comp => h ^^^ hash comp) h)
  | [], 0, _ => rfl
  | _ :: _, 0, _ => rfl
  | comp :: rest, i + 1, hi =>
    hashesFrom_getElem? (h ^^^ hash comp) rest i (Nat.le_of_succ_le_succ hi)

variable {i fuel depth prefixLen : ℕ}

/-- A prefix without its last component is the shorter prefix. -/
theorem dropLast_take_succ (hi : i + 1 ≤ name.length) :
    (name.take (i + 1)).dropLast = name.take i := by
  rw [dropLast_eq_take, length_take_of_le hi, take_take,
    Nat.min_eq_left (Nat.sub_le _ _)]
  rfl

/-- The hashes of the prefixes are at their lengths. -/
theorem hashAt_eq (hash : Component → HashValue) (hi : i ≤ prefixLen) (hlength : i ≤ name.length) :
    hashAt hash name i (computeHashes hash name prefixLen) = .ok (computeHash hash name i) := by
  have htake : (name.take prefixLen).take i = name.take i := by
    rw [take_take, Nat.min_eq_left hi]
  have hget : (computeHashes hash name prefixLen)[i]? = some (computeHash hash name i) := by
    unfold computeHashes
    rw [hashesFrom_getElem?, htake]
    · rfl
    · rw [length_take]
      exact Nat.le_min.mpr ⟨hi, hlength⟩
  unfold hashAt
  rw [hget]
  exact if_neg (not_not.mpr rfl)

/-- What comes before a turn of the loop: the entry of the prefix that is one shorter. -/
def Before (s : Hashtable) (name : Name) (parent : Option ℕ) : ℕ → Prop
  | 0 => parent = none
  | i + 1 => ∃ q e, parent = some q ∧ s.tree q = some e ∧ e.m_name = name.take i

/-- One turn of the lookup finds or inserts the prefix and keeps the invariant. -/
theorem Keeps.lookupTurn (hs : Keeps hash s l) (hi : i ≤ prefixLen)
    (hlength : prefixLen ≤ name.length) (hdepth : prefixLen ≤ getMaxDepth) {parent : Option ℕ}
    (hbefore : Before s name parent i) :
    ∃ s' l' parent', NameTree.lookupTurn hash name (computeHashes hash name prefixLen)
        (s, parent) i = .ok (s', parent') ∧ Keeps hash s' l' ∧ Before s' name parent' (i + 1) := by
  have hname : (name.take i).length = i :=
    length_take_of_le (Nat.le_trans hi hlength)
  obtain ⟨r, hfind, hsome, hnone⟩ := hs.table.findNode name i
  unfold NameTree.lookupTurn Hashtable.insert
  dsimp only
  rw [hashAt_eq hash hi (Nat.le_trans hi hlength), ok_bind]
  unfold Hashtable.findOrInsert
  rw [hfind, ok_bind]
  cases r with
  | some p =>
    obtain ⟨e, he, hentry⟩ := hsome p rfl
    exact ⟨s, l, some p, rfl, hs, p, e, rfl, he, hentry⟩
  | none =>
    have hnew := hnone rfl
    obtain ⟨s₁, l₁, p, hok₁, ht₁, hp, htree₁⟩ :=
      hs.table.insertNode name i (by rw [hname]; exact Nat.le_trans hi hdepth)
    have hp₁ : s₁.tree p = some (.ofName (name.take i)) := by
      rw [htree₁, update_self]
    have hlisted₁ : Listed s₁.tree := htree₁ ▸ hs.listed.add hp rfl rfl
    have hlen : (Entry.ofName (name.take i)).m_name.length ≤ getMaxDepth := by
      show (name.take i).length ≤ _
      rw [hname]
      exact Nat.le_trans hi hdepth
    dsimp only
    rw [hok₁, ok_bind]
    cases i with
    | zero =>
      -- the root has no parent
      obtain rfl : parent = none := hbefore
      refine ⟨s₁, l₁, some p, rfl, ⟨ht₁, ?_, hlisted₁⟩, p, _, rfl, hp₁, rfl⟩
      rw [htree₁]
      exact hs.names.add hp (fun q e hq => hnew q e hq) hlen (fun _ => rfl)
        (fun hne => absurd rfl hne) rfl
    | succ i =>
      obtain ⟨q, e', rfl, hq, hqname⟩ := hbefore
      have hpq : p ≠ q := fun heq => by
        rw [heq, hq] at hp
        cases hp
      have hq₁ : s₁.tree q = some e' := by rw [htree₁, update_of_ne hpq.symm, hq]
      have hne : name.take (i + 1) ≠ [] := fun heq => by
        rw [heq] at hname
        cases hname
      have hlast : e'.m_name = (name.take (i + 1)).dropLast := by
        rw [hqname, dropLast_take_succ (Nat.le_trans hi hlength)]
      obtain ⟨s₂, hok₂, ht₂, htree₂⟩ := ht₁.setParent hp₁ hq₁ hpq rfl hne hlast
      refine ⟨s₂, l₁, some p, ?_, ⟨ht₂, ?_, ?_⟩, p,
        { Entry.ofName (name.take (i + 1)) with m_parent := some q }, rfl, ?_, rfl⟩
      · show (s₁.setParent p q >>= _ : Except Fault _) = _
        rw [hok₂]
        rfl
      · rw [htree₂, htree₁, update_idem]
        refine Names.modify (e := e') (hs.names.add hp (fun r e hr => hnew r e hr) hlen
          (fun heq => absurd heq hne) (fun _ => ⟨q, e', rfl, hq, hlast⟩) rfl) ?_ rfl rfl
          (hs.names.pit q e' hq)
        rw [update_of_ne hpq.symm, hq]
      · rw [htree₂]
        exact hlisted₁.link hp₁ rfl hq₁ hpq
      · rw [htree₂, update_of_ne hpq, update_self]

/-- The loop of `lookup`. -/
theorem Keeps.lookupLoop (hs : Keeps hash s l) (hlength : prefixLen ≤ name.length)
    (hdepth : prefixLen ≤ getMaxDepth) (n : ℕ) (hn : n ≤ prefixLen + 1) :
    ∃ s' l' parent, (List.range n).foldlM
        (NameTree.lookupTurn hash name (computeHashes hash name prefixLen)) (s, none) =
        .ok (s', parent) ∧ Keeps hash s' l' ∧ Before s' name parent n := by
  induction n with
  | zero => exact ⟨s, l, none, rfl, hs, rfl⟩
  | succ n ih =>
    obtain ⟨s₁, l₁, parent₁, hok₁, hs₁, hbefore₁⟩ := ih (Nat.le_of_succ_le hn)
    obtain ⟨s₂, l₂, parent₂, hok₂, hs₂, hbefore₂⟩ :=
      hs₁.lookupTurn (Nat.le_of_succ_le_succ hn) hlength hdepth hbefore₁
    refine ⟨s₂, l₂, parent₂, ?_, hs₂, hbefore₂⟩
    rw [range_succ]
    refine foldlM_append_eq_ok hok₁ ?_
    rw [foldlM_cons, hok₂]
    rfl

/-- **A lookup returns the entry of the name.** -/
theorem Keeps.lookup (hs : Keeps hash s l) (hlength : prefixLen ≤ name.length)
    (hdepth : prefixLen ≤ getMaxDepth) :
    ∃ s' l' p e, NameTree.lookup hash s name prefixLen = .ok (s', p) ∧ Keeps hash s' l' ∧
      s'.tree p = some e ∧ e.m_name = name.take prefixLen := by
  obtain ⟨s', l', parent, hok, hs', q, e, rfl, hq, hname⟩ :=
    hs.lookupLoop hlength hdepth (prefixLen + 1) (Nat.le_refl _)
  refine ⟨s', l', q, e, ?_, hs', hq, hname⟩
  unfold NameTree.lookup
  rw [if_neg (not_or.mpr ⟨Nat.not_lt_of_le hlength, Nat.not_lt_of_le hdepth⟩), hok]
  rfl

/-! ### Erasing -/

/-- An entry and those above it are different nodes, so there are more nodes than components. -/
theorem Names.exists_ancestors (ht : Names t) : ∀ (n p : ℕ) (e : Entry), t p = some e →
    e.m_name.length = n → ∃ a : List ℕ, a.Nodup ∧ a.length = n + 1 ∧
      ∀ q ∈ a, ∃ e', t q = some e' ∧ e'.m_name.length ≤ n
  | 0, p, e, hp, hlength => by
    refine ⟨[p], nodup_singleton p, rfl, fun q hq => ?_⟩
    obtain rfl := mem_singleton.mp hq
    exact ⟨e, hp, Nat.le_of_eq hlength⟩
  | n + 1, p, e, hp, hlength => by
    have hne : e.m_name ≠ [] := ne_nil_of_length_eq_add_one hlength
    obtain ⟨q, e', -, hq, hlast⟩ := ht.parent p e hp hne
    have hshort : e'.m_name.length = n := by
      rw [hlast, length_dropLast, hlength, Nat.add_sub_cancel]
    obtain ⟨a, hnodup, ha, hall⟩ := ht.exists_ancestors n q e' hq hshort
    refine ⟨p :: a, nodup_cons.mpr ⟨fun hmem => ?_, hnodup⟩, congrArg (· + 1) ha,
      forall_mem_cons.mpr ⟨⟨e, hp, Nat.le_of_eq hlength⟩, fun r hr => ?_⟩⟩
    · obtain ⟨e'', he'', hle⟩ := hall p hmem
      obtain rfl := Option.some.inj (hp.symm.trans he'')
      rw [hlength] at hle
      exact Nat.not_succ_le_self n hle
    · obtain ⟨e'', he'', hle⟩ := hall r hr
      exact ⟨e'', he'', Nat.le_succ_of_le hle⟩

/-- A name in the tree has fewer components than nodes were made. -/
theorem Keeps.length_lt (hs : Keeps hash s l) (hp : s.tree p = some e) :
    e.m_name.length < s.nextPointer := by
  obtain ⟨a, hnodup, hlength, hall⟩ := hs.names.exists_ancestors _ p e hp rfl
  have hlt : ∀ q ∈ a, q < s.nextPointer := fun q hq => by
    obtain ⟨e', he', -⟩ := hall q hq
    obtain ⟨h, hentry⟩ := exists_entry he'
    exact hs.table.chained.lt q (hs.table.mem q _ hentry)
  have hle := length_le_of_lt hnodup hlt
  rw [hlength] at hle
  exact hle

/-- An entry is empty if and only if it has neither children nor table entries. -/
theorem isEmpty_iff : e.isEmpty = true ↔ e.m_children = [] ∧ e.hasTableEntries = false := by
  unfold Entry.isEmpty Entry.hasChildren
  rw [Bool.not_not, and_eq_true, List.isEmpty_iff, not_eq_true']

/-- An entry with a parent is taken out from under it, and erased. -/
theorem Keeps.eraseChild (hs : Keeps hash s l) (hp : s.tree p = some x)
    (hchildren : x.m_children = []) (hparent : x.m_parent = some q) :
    ∃ s₁ s₂ l₂ e', s.unsetParent p q = .ok s₁ ∧ s₁.erase p = .ok s₂ ∧ Keeps hash s₂ l₂ ∧
      s₂.tree q = some e' ∧ e'.m_name.length + 1 = x.m_name.length := by
  have hroot : x.m_name ≠ [] := fun heq => by
    rw [hs.names.root p x hp heq] at hparent
    cases hparent
  obtain ⟨q', e', hq', hq, hlast⟩ := hs.names.parent p x hp hroot
  obtain rfl := Option.some.inj (hparent.symm.trans hq')
  have hlength : e'.m_name.length + 1 = x.m_name.length := by
    rw [hlast, length_dropLast]
    exact Nat.sub_add_cancel (length_pos_iff.mpr hroot)
  have hpq : p ≠ q := fun heq => by
    rw [heq, hq] at hp
    obtain rfl := Option.some.inj hp
    omega
  have hmem : p ∈ e'.m_children :=
    (hs.listed.children q e' hq p).mpr ((parentOf_eq hp).trans hparent)
  obtain ⟨s₁, hok₁, ht₁, htree₁⟩ := hs.table.unsetParent hp hq hpq hmem
  have hp₁ : s₁.tree p = some { x with m_parent := none } := by
    rw [htree₁, update_self]
  obtain ⟨s₂, l₂, hok₂, ht₂, htree₂, -⟩ := ht₁.erase hp₁ rfl
  have hlisted₁ : Listed s₁.tree := htree₁ ▸ hs.listed.unlink hp hparent hq hpq
  refine ⟨s₁, s₂, l₂, { e' with m_children := e'.m_children.erase p }, hok₁, hok₂,
    ⟨ht₂, ?_, ?_⟩, ?_, hlength⟩
  · rw [htree₂, htree₁, update_idem]
    refine Names.remove (hs.names.modify hq rfl rfl (hs.names.pit q e' hq)) fun r => ?_
    have hsame := parentOf_modify (x := { e' with m_children := e'.m_children.erase p }) hq rfl
    rw [hsame]
    exact hs.listed.leaf hp hchildren r
  · rw [htree₂]
    exact hlisted₁.remove hp₁ rfl hchildren
  · rw [htree₂, htree₁, update_of_ne hpq.symm, update_of_ne hpq.symm,
      update_self]

/-- The loop of `eraseIfEmpty`. -/
theorem Keeps.eraseLoop (canEraseAncestors : Bool) (hs : Keeps hash s l) (hp : s.tree p = some e)
    (hfuel : e.m_name.length < fuel) :
    ∃ s' l', eraseLoop canEraseAncestors fuel s (some p) = .ok s' ∧ Keeps hash s' l' := by
  induction fuel generalizing s l p e with
  | zero => exact absurd hfuel (Nat.not_lt_zero _)
  | succ fuel ih =>
    obtain ⟨node, hnode, rfl⟩ := deref_of_tree hp
    rw [eraseLoop, hnode, ok_bind]
    cases hempty : node.entry.isEmpty with
    | false => exact ⟨s, l, rfl, hs⟩
    | true =>
      obtain ⟨hchildren, -⟩ := isEmpty_iff.mp hempty
      rw [Bool.not_true, if_neg Bool.false_ne_true]
      cases hparent : node.entry.m_parent with
      | none =>
        obtain ⟨s', l', hok, ht', htree, -⟩ := hs.table.erase hp hparent
        refine ⟨s', l', hok, ht', ?_, ?_⟩
        · rw [htree]
          exact hs.names.remove (hs.listed.leaf hp hchildren)
        · rw [htree]
          exact hs.listed.remove hp hparent hchildren
      | some q =>
        obtain ⟨s₁, s₂, l₂, e', hok₁, hok₂, hs₂, hq, hlength⟩ := hs.eraseChild hp hchildren hparent
        dsimp only
        rw [hok₁, ok_bind, hok₂, ok_bind]
        split_ifs
        · exact ih hs₂ hq (by omega)
        · exact ⟨s₂, l₂, rfl, hs₂⟩

/-- Erasing empty entries succeeds and keeps the invariant. -/
theorem Keeps.eraseIfEmpty (hs : Keeps hash s l) (hp : s.tree p = some e)
    (canEraseAncestors : Bool) :
    ∃ s' l', eraseIfEmpty s p canEraseAncestors = .ok s' ∧ Keeps hash s' l' :=
  hs.eraseLoop canEraseAncestors hp (hs.length_lt hp)

/-! ### Longest prefixes -/

/-- What is found: the entry of the longest prefix that passes the selector, if there is one. -/
def IsLongest (t : ℕ → Option Entry) (name : Name) (entrySelector : Entry → Bool) :
    Option ℕ → Prop
  | none => ∀ q e, t q = some e → e.m_name <+: name → entrySelector e = false
  | some p => ∃ e, t p = some e ∧ e.m_name <+: name ∧ entrySelector e = true ∧
    ∀ q e', t q = some e' → e'.m_name <+: name → entrySelector e' = true →
      e'.m_name.length ≤ e.m_name.length

variable {entrySelector : Entry → Bool} {found found' : Option ℕ}

/-- There is one longest match. -/
theorem IsLongest.unique (ht : Names t) (h : IsLongest t name entrySelector found)
    (h' : IsLongest t name entrySelector found') : found = found' := by
  cases found with
  | none =>
    cases found' with
    | none => rfl
    | some q =>
      obtain ⟨e', hq, hname, hselected, -⟩ := h'
      rw [h q e' hq hname] at hselected
      cases hselected
  | some p =>
    obtain ⟨e, hp, hname, hselected, hmost⟩ := h
    cases found' with
    | none =>
      rw [h' p e hp hname] at hselected
      cases hselected
    | some q =>
      obtain ⟨e', hq, hname', hselected', hmost'⟩ := h'
      have hlength : e.m_name.length = e'.m_name.length :=
        Nat.le_antisymm (hmost' p e hp hname hselected) (hmost q e' hq hname' hselected')
      have heq : e.m_name = e'.m_name :=
        (prefix_of_prefix_length_le hname hname' (Nat.le_of_eq hlength)).eq_of_length hlength
      exact congrArg some (ht.unique p q e e' hp hq heq)

/-- Another name, of which the same entries are prefixes. -/
theorem IsLongest.congr {name' : Name} (h : IsLongest t name entrySelector found)
    (hiff : ∀ q e, t q = some e → (e.m_name <+: name' ↔ e.m_name <+: name)) :
    IsLongest t name' entrySelector found := by
  cases found with
  | none => exact fun q e hq hname => h q e hq ((hiff q e hq).mp hname)
  | some p =>
    obtain ⟨e, hp, hname, hselected, hmost⟩ := h
    exact ⟨e, hp, (hiff p e hp).mpr hname, hselected,
      fun q e' hq hname' => hmost q e' hq ((hiff q e' hq).mp hname')⟩

/-- An entry that passes the test is the longest match of its own name. -/
theorem isLongest_self (hp : t p = some e) (hselected : entrySelector e = true) :
    IsLongest t e.m_name entrySelector (some p) :=
  ⟨e, hp, prefix_rfl, hselected, fun _ _ _ hname _ => hname.length_le⟩

/-- A proper prefix is a prefix of what is left without the last component. -/
theorem prefix_dropLast {a b : Name} (h : a <+: b) (hne : a ≠ b) : a <+: b.dropLast := by
  have hlt : a.length < b.length :=
    Nat.lt_of_le_of_ne h.length_le fun heq => hne (h.eq_of_length heq)
  rw [prefix_iff_eq_take.mp h, dropLast_eq_take]
  exact take_prefix_take_left (Nat.le_sub_one_of_lt hlt)

/-- The entry of the whole name does not pass, or is not there. -/
theorem IsLongest.extend (h : IsLongest t name.dropLast entrySelector found)
    (hnot : ∀ q e, t q = some e → e.m_name = name → entrySelector e = false) :
    IsLongest t name entrySelector found := by
  have hshort : ∀ q e, t q = some e → e.m_name <+: name → entrySelector e = true →
      e.m_name <+: name.dropLast := fun q e hq hname hselected => by
    refine prefix_dropLast hname fun heq => ?_
    rw [hnot q e hq heq] at hselected
    cases hselected
  cases found with
  | none =>
    intro q e hq hname
    by_contra hselected
    rw [not_eq_false] at hselected
    have hno := h q e hq (hshort q e hq hname hselected)
    rw [hselected] at hno
    cases hno
  | some p =>
    obtain ⟨e, hp, hname, hselected, hmost⟩ := h
    exact ⟨e, hp, hname.trans ( dropLast_prefix name), hselected,
      fun q e' hq hname' hselected' => hmost q e' hq (hshort q e' hq hname' hselected') hselected'⟩

/-! ### Matching -/

/-- Selection goes up to an ancestor that passes the test. -/
theorem select_spec (entrySelector : Entry → Bool)
    (hp : ∀ p, found = some p → ∃ e, s.tree p = some e ∧ e.m_name = name) :
    ∃ selected, select s entrySelector found = .ok selected ∧
      (∀ p, selected = some p → ∃ e, s.tree p = some e ∧ e.m_name = name ∧
        entrySelector e = true) ∧
      (selected = none → ∀ p e, found = some p → s.tree p = some e →
        entrySelector e = false) := by
  cases found with
  | none => exact ⟨none, rfl, nofun, fun _ _ _ h => nomatch h⟩
  | some p =>
    obtain ⟨e, he, hname⟩ := hp p rfl
    obtain ⟨node, hnode, rfl⟩ := deref_of_tree he
    rw [select, hnode, ok_bind]
    cases hselected : entrySelector node.entry with
    | true =>
      refine ⟨some p, rfl, fun q hq => ?_, nofun⟩
      obtain rfl := Option.some.inj hq
      exact ⟨node.entry, he, hname, hselected⟩
    | false =>
      refine ⟨none, rfl, nofun, fun _ q e hq heq => ?_⟩
      obtain rfl := Option.some.inj hq
      obtain rfl := Option.some.inj (he.symm.trans heq)
      exact hselected

/-- The entry of a prefix, if it passes the selector. -/
theorem Keeps.findSelected (hs : Keeps hash s l) (entrySelector : Entry → Bool) (hi : i ≤ depth)
    (hlength : depth ≤ name.length) :
    ∃ found selected, s.findHashed hash name i (computeHashes hash name depth) = .ok found ∧
      select s entrySelector found = .ok selected ∧
      (∀ p, selected = some p → ∃ e, s.tree p = some e ∧ e.m_name = name.take i ∧
        entrySelector e = true) ∧
      (selected = none → ∀ q e, s.tree q = some e → e.m_name = name.take i →
        entrySelector e = false) := by
  obtain ⟨found, hfind, hsome, hnone⟩ := hs.table.findNode name i
  obtain ⟨selected, hok, hselected, hunselected⟩ :=
    select_spec entrySelector hsome
  refine ⟨found, selected, ?_, hok, hselected, fun heq q e hq hname => ?_⟩
  · unfold Hashtable.findHashed
    rw [hashAt_eq hash hi (Nat.le_trans hi hlength), ok_bind, hfind]
  · cases found with
    | none => exact absurd hname (hnone rfl q e hq)
    | some p =>
      obtain ⟨e', he', hname'⟩ := hsome p rfl
      have hpq : p = q := hs.names.unique p q e' e he' hq (hname'.trans hname.symm)
      exact hunselected heq p e rfl (hpq ▸ hq)

/-- The loop from a length down. -/
theorem Keeps.longestFrom (hs : Keeps hash s l) (entrySelector : Entry → Bool)
    (hlength : depth ≤ name.length) (i : ℕ) (hi : i ≤ depth) :
    ∃ found, NameTree.longestFrom hash s name (computeHashes hash name depth) entrySelector i =
      .ok found ∧ IsLongest s.tree (name.take i) entrySelector found := by
  induction i with
  | zero =>
    obtain ⟨found, selected, hfind, hok, hselected, hunselected⟩ :=
      hs.findSelected entrySelector hi hlength
    refine ⟨selected, ?_, ?_⟩
    · rw [NameTree.longestFrom, hfind, ok_bind, hok]
    · cases selected with
      | none => exact fun q e hq hname => hunselected rfl q e hq (prefix_nil.mp hname)
      | some p =>
        obtain ⟨e, hp, hname, hpass⟩ := hselected p rfl
        exact hname ▸ isLongest_self hp hpass
  | succ i ih =>
    obtain ⟨found, selected, hfind, hok, hselected, hunselected⟩ :=
      hs.findSelected entrySelector hi hlength
    rw [NameTree.longestFrom, hfind, ok_bind, hok, ok_bind]
    cases selected with
    | some p =>
      obtain ⟨e, hp, hname, hpass⟩ := hselected p rfl
      exact ⟨some p, rfl, hname ▸ isLongest_self hp hpass⟩
    | none =>
      obtain ⟨found', hok', hlongest⟩ := ih (Nat.le_of_succ_le hi)
      refine ⟨found', hok', IsLongest.extend ?_ (hunselected rfl)⟩
      rw [dropLast_take_succ (Nat.le_trans hi hlength)]
      exact hlongest

/-- Names in the tree are prefixes up to the greatest depth. -/
theorem Names.prefix_take_iff (ht : Names t) (hp : t p = some e) :
    e.m_name <+: name ↔ e.m_name <+: name.take (min name.length getMaxDepth) := by
  rw [List.prefix_take_iff]
  exact ⟨fun h => ⟨h, Nat.le_min.mpr ⟨h.length_le, ht.depth p e hp⟩⟩, And.left⟩

/-- **By name.** -/
theorem Keeps.findLongestPrefixMatch (hs : Keeps hash s l) (name : Name)
    (entrySelector : Entry → Bool) :
    ∃ found, findLongestPrefixMatch hash s name entrySelector = .ok found ∧
      IsLongest s.tree name entrySelector found := by
  obtain ⟨found, hok, hlongest⟩ := hs.longestFrom entrySelector
    (Nat.min_le_left name.length getMaxDepth) _ (Nat.le_refl _)
  exact ⟨found, hok, hlongest.congr fun q e hq => hs.names.prefix_take_iff hq⟩

/-- The loop over the parents. -/
theorem Keeps.ancestorFrom (hs : Keeps hash s l) (entrySelector : Entry → Bool)
    (hp : s.tree p = some e) (hfuel : e.m_name.length < fuel) :
    ∃ found, ancestorFrom s entrySelector fuel (some p) = .ok found ∧
      IsLongest s.tree e.m_name entrySelector found := by
  induction fuel generalizing p e with
  | zero => exact absurd hfuel (Nat.not_lt_zero _)
  | succ fuel ih =>
    obtain ⟨node, hnode, rfl⟩ := deref_of_tree hp
    rw [ancestorFrom, hnode, ok_bind]
    split_ifs with hselected
    · exact ⟨some p, rfl, isLongest_self hp hselected⟩
    rw [not_eq_true] at hselected
    have hself : ∀ q e, s.tree q = some e → e.m_name = node.entry.m_name →
        entrySelector e = false := fun q e hq hname => by
      obtain rfl := hs.names.unique q p e node.entry hq hp hname
      obtain rfl := Option.some.inj (hq.symm.trans hp)
      exact hselected
    by_cases hroot : node.entry.m_name = []
    · rw [hs.names.root p node.entry hp hroot]
      refine ⟨none, by cases fuel <;> rfl, fun q e hq hname => ?_⟩
      rw [hroot] at hname
      exact hself q e hq ((prefix_nil.mp hname).trans hroot.symm)
    · obtain ⟨q, e', hparent, hq, hlast⟩ := hs.names.parent p node.entry hp hroot
      have hpos : 0 < node.entry.m_name.length := length_pos_iff.mpr hroot
      have hlength : e'.m_name.length = node.entry.m_name.length - 1 := by
        rw [hlast, length_dropLast]
      obtain ⟨found, hok, hlongest⟩ := ih hq (by omega)
      rw [hparent]
      exact ⟨found, hok, IsLongest.extend (hlast ▸ hlongest) hself⟩

/-- **By entry.** -/
theorem Keeps.findLongestOfEntry (hs : Keeps hash s l) (hp : s.tree p = some e)
    (entrySelector : Entry → Bool) :
    ∃ found, findLongestOfEntry s p entrySelector = .ok found ∧
      IsLongest s.tree e.m_name entrySelector found :=
  hs.ancestorFrom entrySelector hp (hs.length_lt hp)

/-- With a name its prefixes are in the tree. -/
theorem Names.exists_prefix (ht : Names t) (hp : t p = some e) (i : ℕ) (hi : i ≤ e.m_name.length) :
    ∃ q e', t q = some e' ∧ e'.m_name = e.m_name.take i := by
  induction hn : e.m_name.length - i generalizing p e with
  | zero =>
    refine ⟨p, e, hp, (take_of_length_le ?_).symm⟩
    omega
  | succ n ih =>
    have hne : e.m_name ≠ [] := fun heq => by
      rw [heq] at hn
      simp at hn
    obtain ⟨q, e', -, hq, hlast⟩ := ht.parent p e hp hne
    have hlength : e'.m_name.length = e.m_name.length - 1 := by rw [hlast, length_dropLast]
    obtain ⟨r, e'', hr, hname⟩ := ih hq (by omega) (by omega)
    refine ⟨r, e'', hr, ?_⟩
    rw [hname, hlast, dropLast_eq_take, take_take, Nat.min_eq_left (by omega)]

/-- The loop that goes deeper ends at the longest prefix that has an entry. -/
theorem Keeps.deeper (hs : Keeps hash s l) (hdepth : depth = min name.length getMaxDepth) (n : ℕ) :
    ∀ (i p : ℕ) (e : Entry), s.tree p = some e → e.m_name = name.take i →
    i + n = depth → ∃ p' e', NameTree.deeper hash s name (List.range' (i + 1) n) p = .ok p' ∧
      s.tree p' = some e' ∧ e'.m_name <+: name ∧
      ∀ q e'', s.tree q = some e'' → e''.m_name <+: name → e''.m_name <+: e'.m_name := by
  induction n with
  | zero =>
    intro i p e hp hname hi
    refine ⟨p, e, rfl, hp, hname ▸ take_prefix i name, fun q e'' hq hpre => ?_⟩
    rw [hname, ← Nat.add_zero i, hi, hdepth]
    exact (hs.names.prefix_take_iff hq).mp hpre
  | succ n ih =>
    intro i p e hp hname hi
    have hle : i + 1 ≤ min name.length getMaxDepth := by omega
    have hlength : i + 1 ≤ name.length := Nat.le_trans hle (Nat.min_le_left _ _)
    obtain ⟨found, hfind, hsome, hnone⟩ := hs.table.findNode name (i + 1)
    have hexact : findExactMatch hash s name (i + 1) = .ok found := by
      unfold findExactMatch
      rw [Nat.min_eq_right hlength,
        if_neg (Nat.not_lt_of_le (Nat.le_trans hle (Nat.min_le_right _ _)))]
      exact hfind
    rw [range'_succ, NameTree.deeper, hexact, ok_bind]
    cases found with
    | some p' =>
      obtain ⟨e', hp', hname'⟩ := hsome p' rfl
      exact ih (i + 1) p' e' hp' hname' (by omega)
    | none =>
      refine ⟨p, e, rfl, hp, hname ▸ take_prefix i name, fun q e'' hq hpre => ?_⟩
      -- a longer one would have the next prefix above it
      have hshort : e''.m_name.length ≤ i := by
        by_contra hlong
        obtain ⟨r, e₃, hr, hname₃⟩ := hs.names.exists_prefix hq (i + 1) (by omega)
        refine hnone rfl r e₃ hr ?_
        rw [hname₃, prefix_iff_eq_take.mp hpre, take_take, Nat.min_eq_left]
        omega
      rw [hname]
      exact List.prefix_take_iff.mpr ⟨hpre, hshort⟩

/-- **By PIT entry.** -/
theorem Keeps.findLongestOfPitEntry (hs : Keeps hash s l) (hp : s.tree p = some e)
    {pitEntry : PitEntry} (hpit : pitEntry ∈ e.m_pitEntries) (entrySelector : Entry → Bool) :
    ∃ found, findLongestOfPitEntry hash s p pitEntry.name entrySelector = .ok found ∧
      IsLongest s.tree pitEntry.name entrySelector found := by
  have hname := hs.names.pit p e hp pitEntry hpit
  have hpre : e.m_name <+: pitEntry.name := hname ▸ take_prefix _ _
  obtain ⟨node, hnode, rfl⟩ := deref_of_tree hp
  unfold findLongestOfPitEntry
  rw [hnode, ok_bind]
  dsimp only
  split_ifs with hshort
  · have hle : node.entry.m_name.length ≤ min pitEntry.name.length getMaxDepth :=
      Nat.le_min.mpr ⟨hpre.length_le, hs.names.depth p _ hp⟩
    obtain ⟨p', e', hok, hp', hpre', hall⟩ := hs.deeper rfl
      (min pitEntry.name.length getMaxDepth - node.entry.m_name.length) _ p node.entry hp
      (prefix_iff_eq_take.mp hpre) (Nat.add_sub_cancel' hle)
    rw [hok, ok_bind]
    obtain ⟨found, hfound, hlongest⟩ := hs.findLongestOfEntry hp' entrySelector
    exact ⟨found, hfound, hlongest.congr fun q e'' hq =>
      ⟨hall q e'' hq, fun h => h.trans hpre'⟩⟩
  · have heq : node.entry.m_name = pitEntry.name :=
      hpre.eq_of_length (Nat.le_antisymm hpre.length_le (Nat.le_of_not_lt hshort))
    rw [← heq]
    exact hs.findLongestOfEntry hp entrySelector

/-! ### Runs -/

/-- What a call may be made with: names that are not too long, entries that are there, and PIT
entries at the entries of their names. -/
def Valid (s : Hashtable) : NameTree.Call → Prop
  | .lookup name prefixLen => prefixLen ≤ name.length ∧ prefixLen ≤ getMaxDepth
  | .lookupFibEntry nte fibPrefix => nte = none → fibPrefix = []
  | .lookupPitEntry _ _ => True
  | .eraseIfEmpty entry _ => (s.tree entry).isSome = true
  | .setFibEntry entry _ => (s.tree entry).isSome = true
  | .insertPitEntry entry pitEntry => ((s.tree entry).any fun e =>
      e.m_name == pitEntry.name.take (nteDepth pitEntry.name)) = true
  | .erasePitEntry entry pitEntry => ((s.tree entry).any fun e =>
      e.m_pitEntries.any fun pitEntry2 => pitEntry2.pointer == pitEntry) = true
  | .setMeasurementsEntry entry _ => (s.tree entry).isSome = true
  | .setStrategyChoiceEntry entry _ => (s.tree entry).isSome = true

instance (s : Hashtable) (call : NameTree.Call) : Decidable (Valid s call) :=
  match call with
  | .lookup _ _ => inferInstanceAs (Decidable (_ ∧ _))
  | .lookupFibEntry _ _ => inferInstanceAs (Decidable (_ → _))
  | .lookupPitEntry _ _ => inferInstanceAs (Decidable True)
  | .eraseIfEmpty _ _ => inferInstanceAs (Decidable (_ = true))
  | .setFibEntry _ _ => inferInstanceAs (Decidable (_ = true))
  | .insertPitEntry _ _ => inferInstanceAs (Decidable (_ = true))
  | .erasePitEntry _ _ => inferInstanceAs (Decidable (_ = true))
  | .setMeasurementsEntry _ _ => inferInstanceAs (Decidable (_ = true))
  | .setStrategyChoiceEntry _ _ => inferInstanceAs (Decidable (_ = true))

/-- Taking a PIT entry away leaves others of the list only. -/
theorem mem_withoutPitEntry {pitEntry : ℕ} {pitEntry2 : PitEntry}
    (hany : (e.m_pitEntries.any fun pitEntry2 => pitEntry2.pointer == pitEntry) = true)
    (hmem : pitEntry2 ∈ (withoutPitEntry pitEntry e).m_pitEntries) :
    pitEntry2 ∈ e.m_pitEntries := by
  have hne : e.m_pitEntries ≠ [] := fun heq => by
    rw [heq] at hany
    cases hany
  obtain hmem | rfl := mem_or_eq_of_mem_set (dropLast_subset _ hmem)
  · exact hmem
  · rw [getLastD_eq_getLast?, List.getLast?_eq_getLast_of_ne_nil hne]
    exact getLast_mem hne

/-- Every valid call succeeds and keeps the invariant. -/
theorem Keeps.step (hs : Keeps hash s l) {call : NameTree.Call} (hvalid : Valid s call) :
    ∃ s' l' returned, NameTree.step hash s call = .ok (s', returned) ∧ Keeps hash s' l' := by
  cases call with
  | lookup name prefixLen =>
    obtain ⟨s', l', p, e, hok, hs', -, -⟩ := hs.lookup hvalid.1 hvalid.2
    exact ⟨s', l', [p], by rw [NameTree.step, hok]; rfl, hs'⟩
  | lookupFibEntry nte fibPrefix =>
    cases nte with
    | none =>
      obtain rfl := hvalid rfl
      obtain ⟨s', l', p, e, hok, hs', -, -⟩ :=
        hs.lookup (Nat.le_refl ([] : Name).length) (Nat.zero_le getMaxDepth)
      refine ⟨s', l', [p], ?_, hs'⟩
      rw [NameTree.step, NameTree.lookupFibEntry, if_neg (not_not.mpr rfl)]
      exact congrArg (Except.map _) hok
    | some p => exact ⟨s, l, [p], rfl, hs⟩
  | lookupPitEntry nte name =>
    rw [NameTree.step, NameTree.lookupPitEntry]
    split_ifs with hdigest
    · obtain ⟨s', l', p, e, hok, hs', -, -⟩ := hs.lookup (Nat.le_refl name.length) hdigest.2
      exact ⟨s', l', [p], by rw [hok]; rfl, hs'⟩
    · exact ⟨s, l, [nte], rfl, hs⟩
  | eraseIfEmpty entry canEraseAncestors =>
    obtain ⟨e, he⟩ := isSome_iff_exists.mp hvalid
    obtain ⟨s', l', hok, hs'⟩ := hs.eraseIfEmpty he canEraseAncestors
    exact ⟨s', l', [], by rw [NameTree.step, hok]; rfl, hs'⟩
  -- The calls that follow change one entry and neither its name nor its relations.
  | setFibEntry entry fibEntry =>
    obtain ⟨e, he⟩ := isSome_iff_exists.mp hvalid
    obtain ⟨s', hok, hs'⟩ := hs.modifyEntry he (fun e => { e with m_fibEntry := fibEntry })
      rfl rfl rfl (hs.names.pit entry e he)
    exact ⟨s', l, [], by rw [NameTree.step, hok]; rfl, hs'⟩
  | insertPitEntry entry pitEntry =>
    obtain ⟨e, he, hname⟩ := (any_eq_true _ _).mp hvalid
    obtain ⟨s', hok, hs'⟩ := hs.modifyEntry he
      (fun e => { e with m_pitEntries := e.m_pitEntries ++ [pitEntry] }) rfl rfl rfl
      (forall_mem_append.mpr ⟨hs.names.pit entry e he,
        forall_mem_singleton.mpr (beq_iff_eq.mp hname)⟩)
    exact ⟨s', l, [], by rw [NameTree.step, hok]; rfl, hs'⟩
  | erasePitEntry entry pitEntry =>
    obtain ⟨e, he, hany⟩ := (any_eq_true _ _).mp hvalid
    obtain ⟨node, hnode, rfl⟩ := deref_of_tree he
    obtain ⟨s', hok, hs'⟩ := hs.modifyEntry he (withoutPitEntry pitEntry) rfl rfl rfl
      fun pitEntry2 hmem => hs.names.pit entry _ he pitEntry2 (mem_withoutPitEntry hany hmem)
    refine ⟨s', l, [], ?_, hs'⟩
    rw [NameTree.step, NameTree.erasePitEntry, hnode, ok_bind, if_pos hany, hok]
    rfl
  | setMeasurementsEntry entry measurementsEntry =>
    obtain ⟨e, he⟩ := isSome_iff_exists.mp hvalid
    obtain ⟨s', hok, hs'⟩ := hs.modifyEntry he
      (fun e => { e with m_measurementsEntry := measurementsEntry }) rfl rfl rfl
      (hs.names.pit entry e he)
    exact ⟨s', l, [], by rw [NameTree.step, hok]; rfl, hs'⟩
  | setStrategyChoiceEntry entry strategyChoiceEntry =>
    obtain ⟨e, he⟩ := isSome_iff_exists.mp hvalid
    obtain ⟨s', hok, hs'⟩ := hs.modifyEntry he
      (fun e => { e with m_strategyChoiceEntry := strategyChoiceEntry }) rfl rfl rfl
      (hs.names.pit entry e he)
    exact ⟨s', l, [], by rw [NameTree.step, hok]; rfl, hs'⟩

/-- The empty tree. -/
theorem keeps_ofOptions (hash : Component → HashValue) (options : HashtableOptions) :
    Keeps hash (ofOptions options) (List.replicate options.initialSize []) := by
  refine ⟨⟨chained_replicate rfl (Nat.lt_of_lt_of_le options.minSize_pos options.minSize_le),
    nofun, ?_, nofun⟩, ⟨nofun, nofun, nofun, nofun, nofun⟩, ⟨nofun, nofun, nofun⟩⟩
  rw [flatten_replicate_nil]
  rfl

/-- What holds of a tree: the nodes are in the buckets of their hashes, in chains that are linked
both ways, they are as many as the size says, there is one for a name, with its parent, which
lists it once, and all ways to the longest prefix match lead to the same. -/
structure Right (hash : Component → HashValue) (s : Hashtable) : Prop where
  chains : ∃ l, Chains s.links s.m_buckets l ∧ Numbered (s.number s.getNBuckets) 0 l ∧
    (∀ p, (s.nodes p).isSome = true ↔ p ∈ l.flatten) ∧ s.m_size = l.flatten.length
  hashes : ∀ p node, s.nodes p = some node →
    node.hash = computeHash hash node.entry.m_name node.entry.m_name.length
  unique : ∀ p q e e', s.tree p = some e → s.tree q = some e' → e.m_name = e'.m_name → p = q
  parent : ∀ p e, s.tree p = some e → e.m_name ≠ [] → ∃ q e', e.m_parent = some q ∧
    s.tree q = some e' ∧ e'.m_name = e.m_name.dropLast ∧ e'.m_children.count p = 1
  byName : ∀ name entrySelector, ∃ found,
    findLongestPrefixMatch hash s name entrySelector = .ok found ∧
      IsLongest s.tree name entrySelector found
  byEntry : ∀ p e entrySelector, s.tree p = some e →
    findLongestOfEntry s p entrySelector =
      findLongestPrefixMatch hash s e.m_name entrySelector
  byPitEntry : ∀ p e entrySelector, s.tree p = some e → ∀ pitEntry ∈ e.m_pitEntries,
    findLongestOfPitEntry hash s p pitEntry.name entrySelector =
      findLongestPrefixMatch hash s pitEntry.name entrySelector

/-- What a kept tree promises. -/
theorem Keeps.right (hs : Keeps hash s l) : Right hash s where
  chains := by
    refine ⟨l, hs.table.chained.chains, ?_, fun p => ⟨fun hp => ?_, fun hp => ?_⟩, hs.table.size⟩
    · rw [hs.table.chained.getNBuckets]
      exact hs.table.chained.numbered
    · obtain ⟨node, hnode⟩ := isSome_iff_exists.mp hp
      exact hs.table.mem p _ (entries_eq hnode)
    · obtain ⟨h, e, hentry⟩ := exists_of_mem_flatten hs.table.chained hp
      obtain ⟨node, hnode, -, -⟩ := exists_node hentry
      rw [hnode]
      rfl
  hashes := fun p node hnode => hs.table.hashes p _ _ (entries_eq hnode)
  unique := hs.names.unique
  parent := fun p e hp hname => by
    obtain ⟨q, e', hparent, hq, hlast⟩ := hs.names.parent p e hp hname
    refine ⟨q, e', hparent, hq, hlast, count_eq_one_of_mem (hs.listed.nodup q e' hq) ?_⟩
    exact (hs.listed.children q e' hq p).mpr ((parentOf_eq hp).trans hparent)
  byName := hs.findLongestPrefixMatch
  byEntry := fun p e entrySelector hp => by
    obtain ⟨found, hok, hlongest⟩ := hs.findLongestOfEntry hp entrySelector
    obtain ⟨found', hok', hlongest'⟩ := hs.findLongestPrefixMatch e.m_name entrySelector
    rw [hok, hok', hlongest.unique hs.names hlongest']
  byPitEntry := fun p e entrySelector hp pitEntry hmem => by
    obtain ⟨found, hok, hlongest⟩ := hs.findLongestOfPitEntry hp hmem entrySelector
    obtain ⟨found', hok', hlongest'⟩ := hs.findLongestPrefixMatch pitEntry.name entrySelector
    rw [hok, hok', hlongest.unique hs.names hlongest']

/-- Every run of calls keeps the invariant. -/
theorem run_keeps (hash : Component → HashValue) (options : HashtableOptions)
    (calls : List NameTree.Call)
    (hvalid : TracedRun.Meets (NameTree.step hash) (fun s _ call => Valid s call)
      (ofOptions options) [] calls) :
    ∃ s returned, TracedRun.run (NameTree.step hash) (ofOptions options) calls =
      .ok (s, returned) ∧ ∃ l, Keeps hash s l :=
  TracedRun.run_invariant (I := fun s _ => ∃ l, Keeps hash s l)
    (fun s _ call hs hcall => by
      obtain ⟨l, hs⟩ := hs
      obtain ⟨s', l', returned, hok, hs'⟩ := hs.step hcall
      exact ⟨s', returned, hok, l', hs'⟩)
    ⟨_, keeps_ofOptions hash options⟩ hvalid

end Ns3Joined.Nfd.name_tree
