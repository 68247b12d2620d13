import Mathlib.Data.List.Basic
import BuildScript.Proofs.Edit.Bounds
/-!
# Edits whose text has moved

An edit whose text is not in its region but at one other place of its line is made at that place.
The order of application knows only the region. So the edits around it fall into three parts: those
made before it and those made after it in either order, and those that lie between the region and
the place, which are made on the wrong side of it.

**Towards the end.** Where the place lies behind the region, the edits between the two are made too
early. They stand in front of the place and only move it, by as much as they lengthen the text.

**Towards the beginning.** Where the place lies in front of the region, the edits between the two
are made too late: they stand behind the place, and each of them is off by as much as the relocated
edit lengthens the text.

Apart from that the edits commute, and the replay gives what a reader would write who had the edit
at its place from the start.

Results:
* `MadeInPlace.behind`: edits behind a front part are made alike behind any other of that length.
* `Recoverable.splice_eq`: an edit whose text stands at one place of its line is made there.
* `run_recovered`: making it commutes with the others, but for those that it overtakes.
* `recoverable_of_below`: edits below its line leave it to be found.
* `replay_recovered`: a replay with one relocated edit is the reference splice.
-/
namespace BuildScript

namespace Edit

/-! ## Places -/

/-- By how much edits lengthen a text. -/
def growth : List Edit → Int
  | [] => 0
  | e :: rest => e.newText.length - e.expected.length + growth rest

/-- Where a place of a script comes to stand when edits are made. -/
def placeAfter (edits : List Edit) (place : Nat) : Nat :=
  (place + growth (edits.filter fun e => e.start ≤ place)).toNat

/-- An edit at another place of a script. -/
def moveTo (e : Edit) (script : Text) (place : Nat) : Edit :=
  { e with region := .between (Text.lineStarts script) place (place + e.expected.length) }

section
variable (e : Edit) (script : Text) (place : Nat)

@[simp] theorem start_moveTo : (e.moveTo script place).start = place := rfl

@[simp] theorem stop_moveTo : (e.moveTo script place).stop = place + e.expected.length := rfl

@[simp] theorem expected_moveTo : (e.moveTo script place).expected = e.expected := rfl

end

/-! ## The edit that is relocated -/

/-- The text an edit expects is not in its region, but at one place of the line that the region
starts on. -/
structure Recoverable (e : Edit) (text : Text) (place : Nat) : Prop where
  bounds : e.InBounds text.length
  differs : Text.slice text e.start e.stop ≠ e.expected
  ne_nil : e.expected ≠ []
  only : (Text.occurrences e.expected (Text.lineAt text e.start)).map
    ((Text.lineBounds text e.start).1 + ·) = [place]

section
variable {e : Edit} {text : Text} {place : Nat}

theorem Recoverable.relocation?_eq (h : e.Recoverable text place) :
    e.relocation? text = some place := by
  obtain ⟨i, hi, hplace⟩ := List.map_eq_singleton_iff.1 h.only
  have hcount := Text.disjointCount_of_occurrences h.ne_nil hi
  have hfind := Text.find?_of_occurrences h.ne_nil hi
  unfold relocation?
  dsimp only
  rw [if_pos ⟨h.ne_nil, hcount⟩]
  exact (congrArg (Option.map _) hfind).trans (congrArg some hplace)

theorem Recoverable.splice_eq (h : e.Recoverable text place) :
    e.splice text = .ok (e.put text place (place + e.expected.length), some place) := by
  obtain ⟨h0, h1, h2⟩ := h.bounds
  have hbounds : ¬ (e.start < 0 ∨ e.stop > text.length ∨ e.start > e.stop) := by omega
  unfold splice
  rw [if_neg hbounds]
  dsimp only
  rw [if_neg h.differs, h.relocation?_eq]

theorem Recoverable.problems_ne_nil (h : e.Recoverable text place) : e.problems text ≠ [] := by
  intro hnil
  obtain ⟨-, -, -, hslice⟩ := problems_eq_nil_iff.1 hnil
  have hkind : e.kind ≠ .insert := fun k => h.ne_nil (if_pos k)
  exact h.differs ((hslice hkind).trans (if_neg hkind).symm)

theorem Recoverable.of_append_stop {u v : Text} (h : e.Recoverable (u ++ '\n' :: v) place)
    (hstop : e.stop ≤ u.length) (w : Text) : e.Recoverable (u ++ '\n' :: w) place := by
  obtain ⟨⟨h0, h1, -⟩, hdiffers, hne, honly⟩ := h
  have hstart : e.start ≤ u.length := by omega
  have hslice : ∀ t : Text, Text.slice (u ++ t) e.start e.stop = Text.slice u e.start e.stop := by
    intro t
    obtain ⟨i, hi⟩ := Int.eq_ofNat_of_zero_le h0
    obtain ⟨j, hj⟩ := Int.eq_ofNat_of_zero_le (Int.le_trans h0 h1)
    rw [hi, hj, Text.slice_of_le, Text.slice_of_le, List.take_append_of_le_length (by omega)]
  refine ⟨⟨h0, h1, ?_⟩, ?_, hne, ?_⟩
  · rw [List.length_append]
    omega
  · rwa [hslice] at hdiffers ⊢
  · rwa [Text.lineAt_append_stop hstart, Text.lineBounds_append_stop hstart] at honly ⊢

end

end Edit

/-! ## Runs without relocation -/

namespace Replay

/-- All edits are made where they are, one after the other, and give the text `new`. -/
def MadeInPlace (text : Text) (edits : List Edit) (new : Text) : Prop :=
  run text edits = ⟨.ok new, []⟩

section
variable {text new : Text} {e : Edit} {edits rest : List Edit}

theorem MadeInPlace.eq (h : MadeInPlace text edits new) : run text edits = ⟨.ok new, []⟩ := h

theorem madeInPlace_cons_iff : MadeInPlace text (e :: rest) new ↔
    ∃ next, e.splice text = .ok (next, none) ∧ MadeInPlace next rest new := by
  unfold MadeInPlace
  rw [run]
  cases e.splice text with
  | error fault => simp
  | ok made =>
    obtain ⟨next, _ | place⟩ := made
    · simp
    · simp

theorem madeInPlace_append_iff : MadeInPlace text (edits ++ rest) new ↔
    ∃ mid, MadeInPlace text edits mid ∧ MadeInPlace mid rest new := by
  induction edits generalizing text with
  | nil => simp [MadeInPlace, run]
  | cons e edits ih =>
    rw [List.cons_append, madeInPlace_cons_iff]
    simp only [ih, madeInPlace_cons_iff]
    constructor
    · rintro ⟨next, hmade, mid, hedits, hrest⟩
      exact ⟨mid, ⟨next, hmade, hedits⟩, hrest⟩
    · rintro ⟨mid, ⟨next, hmade, hedits⟩, hrest⟩
      exact ⟨next, hmade, mid, hedits, hrest⟩

theorem MadeInPlace.run_append (h : MadeInPlace text edits new) (rest : List Edit) :
    run text (edits ++ rest) = run new rest := by
  induction edits generalizing text with
  | nil =>
    cases h
    rfl
  | cons e edits ih =>
    obtain ⟨next, hmade, hedits⟩ := madeInPlace_cons_iff.1 h
    rw [List.cons_append, run, hmade]
    exact ih hedits

theorem MadeInPlace.unique {new' : Text} (h : MadeInPlace text edits new)
    (h' : MadeInPlace text edits new') : new = new' := by
  have := h.symm.trans h'
  cases this
  rfl

theorem MadeInPlace.length_eq (h : MadeInPlace text edits new) :
    (new.length : Int) = text.length + Edit.growth edits := by
  induction edits generalizing text with
  | nil =>
    cases h
    simp [Edit.growth]
  | cons e edits ih =>
    obtain ⟨next, hmade, hedits⟩ := madeInPlace_cons_iff.1 h
    have hlength := Edit.length_of_splice hmade
    rw [ih hedits, Edit.growth]
    omega

theorem madeInPlace_weave (hfit : ∀ e ∈ edits, e.Fits text)
    (hbehind : edits.Pairwise fun a b => b.stop ≤ a.start) :
    MadeInPlace text edits (Edit.weave text 0 edits.reverse) := by
  have := run_eq_weave (v := []) hfit hbehind
  rwa [List.append_nil, List.append_nil] at this

/-- Edits behind a front part are made alike behind any other front part of that length. -/
theorem MadeInPlace.behind {u v : Text} (h : MadeInPlace (u ++ v) edits new)
    (hstart : ∀ e ∈ edits, (u.length : Int) ≤ e.start) :
    ∃ v', new = u ++ v' ∧
      ∀ u' : Text, u'.length = u.length → MadeInPlace (u' ++ v) edits (u' ++ v') := by
  induction edits generalizing v with
  | nil =>
    cases h
    exact ⟨v, rfl, fun u' _ => rfl⟩
  | cons e edits ih =>
    obtain ⟨next, hmade, hedits⟩ := madeInPlace_cons_iff.1 h
    obtain ⟨-, x, y, htext, rfl, ⟨-, hx, hstop⟩ | ⟨hsome, -⟩⟩ := Edit.splice_spec hmade
    · have hle : u.length ≤ x.length := by
        have := hstart e List.mem_cons_self
        omega
      obtain ⟨w, rfl⟩ : u <+: x := by
        refine List.prefix_of_prefix_length_le (List.prefix_append u v) ?_ hle
        rw [htext, List.append_assoc]
        exact List.prefix_append x _
      have hv : v = w ++ e.expected ++ y := by
        simpa using htext
      obtain ⟨v', rfl, hrest⟩ := ih (v := w ++ e.newText ++ y) (by simpa using hedits)
        fun f hf => hstart f (List.mem_cons_of_mem e hf)
      refine ⟨v', rfl, fun u' hu' => madeInPlace_cons_iff.2 ⟨_, ?_, hrest u' hu'⟩⟩
      have hsame : (u' ++ w).length = (u ++ w).length := by
        rw [List.length_append, List.length_append, hu']
      have := Edit.splice_append (e := e) (u := u' ++ w) (v := y) (by omega) (by omega)
      rw [hv]
      simpa using this
    · cases hsome

end

/-! ## Edits on the wrong side of the relocated edit -/

section
variable {a : Edit} {script text u v ref : Text} {place : Nat} {first between last : List Edit}

theorem splice_moveTo (v : Text) (hu : u.length = place) :
    (a.moveTo script place).splice (u ++ a.expected ++ v) = .ok (u ++ a.newText ++ v, none) := by
  subst hu
  exact Edit.splice_append (e := a.moveTo script u.length) rfl rfl

/-- Where the edit moves towards the end, the edits between are made first. They move the place and
are made as if the edit had been made already. -/
theorem recovered_towards_end (hu : u.length = place)
    (h : MadeInPlace (u ++ a.expected ++ v)
      (first ++ a.moveTo script place :: (between ++ last)) ref)
    (hfirst : ∀ e ∈ first, (place + a.expected.length : Int) ≤ e.start)
    (hfit : ∀ e ∈ between, e.Fits u)
    (hbehind : between.Pairwise fun a b => b.stop ≤ a.start) :
    ∃ x w, (x.length : Int) = place + Edit.growth between ∧
      MadeInPlace (u ++ a.expected ++ v) (first ++ between) (x ++ a.expected ++ w) ∧
      MadeInPlace (x ++ a.newText ++ w) last ref := by
  obtain ⟨mid, hmadeFirst, hrest⟩ := madeInPlace_append_iff.1 h
  obtain ⟨w, rfl, -⟩ := hmadeFirst.behind fun e he => by
    have := hfirst e he
    rw [List.length_append]
    omega
  obtain ⟨next, hmoved, hrest⟩ := madeInPlace_cons_iff.1 hrest
  rw [splice_moveTo w hu] at hmoved
  cases hmoved
  -- the edits between fit `u`, so they are made in front of the old text as of the new one
  have hbetween : ∀ t : Text, MadeInPlace (u ++ t) between (Edit.weave u 0 between.reverse ++ t) :=
    fun t => run_eq_weave hfit hbehind
  refine ⟨Edit.weave u 0 between.reverse, w, ?_, ?_, ?_⟩
  · have := (hbetween []).length_eq
    rw [List.append_nil, List.append_nil, hu] at this
    exact this
  · refine madeInPlace_append_iff.2 ⟨_, hmadeFirst, ?_⟩
    rw [List.append_assoc, List.append_assoc]
    exact hbetween _
  · obtain ⟨mid, hmid, hlast⟩ := madeInPlace_append_iff.1 hrest
    rw [List.append_assoc] at hmid
    rw [List.append_assoc, ← hmid.unique (hbetween _)]
    exact hlast

/-- Where the edit moves towards the beginning, the edits between are made after it. They find their
texts if it did not change the length. -/
theorem recovered_towards_start (hu : u.length = place)
    (h : MadeInPlace (u ++ a.expected ++ v) (first ++ between ++ a.moveTo script place :: last) ref)
    (hfirst : ∀ e ∈ first ++ between, (place + a.expected.length : Int) ≤ e.start)
    (hlength : a.newText.length = a.expected.length ∨ between = []) :
    ∃ w, MadeInPlace (u ++ a.expected ++ v) first (u ++ a.expected ++ w) ∧
      MadeInPlace (u ++ a.newText ++ w) (between ++ last) ref := by
  have hbehind : ∀ e ∈ first ++ between, ((u ++ a.expected).length : Int) ≤ e.start := by
    intro e he
    have := hfirst e he
    rw [List.length_append]
    omega
  obtain ⟨mid, hmade, hrest⟩ := madeInPlace_append_iff.1 h
  obtain ⟨mid', hmadeFirst, hmadeBetween⟩ := madeInPlace_append_iff.1 hmade
  obtain ⟨w, rfl, -⟩ := hmadeFirst.behind fun e he => hbehind e (List.mem_append_left _ he)
  obtain ⟨w', rfl, hother⟩ := hmadeBetween.behind fun e he =>
    hbehind e (List.mem_append_right _ he)
  obtain ⟨next, hmoved, hlast⟩ := madeInPlace_cons_iff.1 hrest
  rw [splice_moveTo w' hu] at hmoved
  cases hmoved
  refine ⟨w, hmadeFirst, madeInPlace_append_iff.2 ⟨_, ?_, hlast⟩⟩
  rcases hlength with hlength | rfl
  · refine hother _ ?_
    rw [List.length_append, List.length_append, hlength]
  · obtain rfl := List.append_cancel_left (hmadeBetween.unique rfl)
    rfl

end

/-! ## The relocated edit among the others -/

theorem placeAfter_append {behind front : List Edit} {place : Nat}
    (hbehind : ∀ e ∈ behind, (place : Int) < e.start) (hfront : ∀ e ∈ front, e.start ≤ place) :
    Edit.placeAfter (behind ++ front) place = (place + Edit.growth front).toNat := by
  have hnone : behind.filter (fun e => e.start ≤ (place : Int)) = [] := by
    simpa [List.filter_eq_nil_iff] using hbehind
  have hall : front.filter (fun e => e.start ≤ (place : Int)) = front := by
    simpa [List.filter_eq_self] using hfront
  rw [Edit.placeAfter, List.filter_append, hnone, hall, List.nil_append]

theorem placeAfter_of_behind {behind : List Edit} {place : Nat}
    (h : ∀ e ∈ behind, (place : Int) < e.start) : Edit.placeAfter behind place = place := by
  have hplace : Edit.placeAfter (behind ++ []) place = (place + Edit.growth []).toNat :=
    placeAfter_append h (by simp)
  rw [List.append_nil] at hplace
  simpa [Edit.growth] using hplace

/-- Edits below the line of an edit leave it to be found where it was. -/
theorem recoverable_of_below {a : Edit} {u v : Text} {place : Nat} {below : List Edit}
    (hfound : a.Recoverable (u ++ '\n' :: v) place) (hstop : a.stop ≤ u.length)
    (hfit : ∀ e ∈ below, e.Fits (u ++ '\n' :: v))
    (hbehind : below.Pairwise fun a b => b.stop ≤ a.start)
    (hstart : ∀ e ∈ below, (u.length : Int) < e.start) :
    a.Recoverable (Edit.weave (u ++ '\n' :: v) 0 below.reverse) (Edit.placeAfter below place) := by
  have hmade := madeInPlace_weave hfit hbehind
  have hcut : u ++ '\n' :: v = (u ++ ['\n']) ++ v := by simp
  rw [hcut] at hmade
  obtain ⟨v', hweave, -⟩ := hmade.behind fun e he => by
    have := hstart e he
    rw [List.length_append, List.length_singleton]
    omega
  have hplace : place < (u ++ ['\n']).length := by
    obtain ⟨hne, -, x, y, hu, hx⟩ :=
      Edit.relocation?_spec (hfound.of_append_stop hstop []).relocation?_eq
    have := List.length_pos_iff.2 hne
    rw [hu]
    simp only [List.length_append]
    omega
  have hsame : Edit.placeAfter below place = place := placeAfter_of_behind fun e he => by
    have := hstart e he
    rw [List.length_append, List.length_singleton] at hplace
    omega
  rw [hsame, hcut, hweave, List.append_assoc]
  exact hfound.of_append_stop hstop v'

/-- Whichever way the edit moves, it finds the text it expects after the edits made before it, and
those made after it finish the reference. -/
theorem recovered_cut {a : Edit} {script u v ref : Text} {place : Nat}
    {first last first' last' : List Edit} (hu : u.length = place) (hpos : 0 < a.expected.length)
    (h : MadeInPlace (u ++ a.expected ++ v) (first' ++ a.moveTo script place :: last') ref)
    (hsame : first ++ last = first' ++ last')
    (hfirst : ∀ e ∈ first', (place + a.expected.length : Int) ≤ e.start)
    (hfit : ∀ e ∈ last', e.Fits u) (hbehind : last'.Pairwise fun a b => b.stop ≤ a.start)
    (hlast : a.newText.length = a.expected.length ∨ ∀ e ∈ last, e.start ≤ place) :
    ∃ x w, x.length = Edit.placeAfter first place ∧
      MadeInPlace (u ++ a.expected ++ v) first (x ++ a.expected ++ w) ∧
      MadeInPlace (x ++ a.newText ++ w) last ref := by
  have hfirstLt : ∀ e ∈ first', (place : Int) < e.start := fun e he => by
    have := hfirst e he
    omega
  rcases List.append_eq_append_iff.1 hsame with ⟨between, rfl, rfl⟩ | ⟨between, rfl, rfl⟩
  · have hlength : a.newText.length = a.expected.length ∨ between = [] := by
      refine hlast.imp_right fun hfront => List.eq_nil_iff_forall_not_mem.2 fun e he => ?_
      have := hfirstLt e (List.mem_append_right first he)
      have := hfront e (List.mem_append_left last' he)
      omega
    obtain ⟨w, hmade, hrest⟩ := recovered_towards_start hu h hfirst hlength
    refine ⟨u, w, ?_, hmade, hrest⟩
    rw [placeAfter_of_behind fun e he => hfirstLt e (List.mem_append_left between he), hu]
  · have hfitBetween : ∀ e ∈ between, e.Fits u := fun e he => hfit e (List.mem_append_left last he)
    have hstart : ∀ e ∈ between, e.start ≤ place := by
      intro e he
      obtain ⟨-, hle, hstop⟩ := (hfitBetween e he).inBounds
      omega
    obtain ⟨x, w, hx, hmade, hrest⟩ := recovered_towards_end hu h hfirst hfitBetween
      (List.pairwise_append.1 hbehind).1
    refine ⟨x, w, ?_, hmade, hrest⟩
    rw [placeAfter_append hfirstLt hstart]
    omega

/-- Making an edit at the only other place of its text commutes with making the others, apart from
those behind the place that are made after it if it changes the length. `first'` and `last'` are
the others in the order they have around the place. -/
theorem run_recovered {text : Text} {a : Edit} {place : Nat} {first last first' last' : List Edit}
    (hfound : a.Recoverable text place) (hsame : first ++ last = first' ++ last')
    (hfit : ∀ e ∈ first' ++ a.moveTo text place :: last', e.Fits text)
    (hbehind : (first' ++ a.moveTo text place :: last').Pairwise fun a b => b.stop ≤ a.start)
    (hstill : a.Recoverable (Edit.weave text 0 first.reverse) (Edit.placeAfter first place))
    (hlast : a.newText.length = a.expected.length ∨ ∀ e ∈ last, e.start ≤ place) :
    run text (first ++ a :: last) =
      ⟨.ok (Edit.weave text 0 (first' ++ a.moveTo text place :: last').reverse),
        [.relocated a (Edit.placeAfter first place)]⟩ := by
  obtain ⟨-, -, u, v, htext, hu⟩ := Edit.relocation?_spec hfound.relocation?_eq
  have hreference := madeInPlace_weave hfit hbehind
  have hfirst : MadeInPlace text first (Edit.weave text 0 first.reverse) := by
    have hsub : first.Sublist (first' ++ a.moveTo text place :: last') :=
      ((List.sublist_append_left first last).trans (hsame ▸ List.Sublist.refl _)).trans
        ((List.Sublist.refl first').append (List.sublist_cons_self _ last'))
    exact madeInPlace_weave (fun e he => hfit e (hsub.subset he)) (hbehind.sublist hsub)
  -- the edits around the place, told apart by where they stand
  obtain ⟨-, hafter, hacross⟩ := List.pairwise_append.1 hbehind
  obtain ⟨hstop, hpair⟩ := List.pairwise_cons.1 hafter
  have hfront : ∀ e ∈ last', e.Fits u := by
    intro e he
    have hwhole := hfit e (List.mem_append_right first' (List.mem_cons_of_mem _ he))
    rw [htext, List.append_assoc] at hwhole
    refine hwhole.of_append ?_
    rw [hu]
    exact hstop e he
  generalize Edit.weave text 0 (first' ++ a.moveTo text place :: last').reverse = ref
    at hreference ⊢
  rw [htext] at hreference
  obtain ⟨x, w, hx, hmade, hrest⟩ := recovered_cut hu (List.length_pos_iff.2 hfound.ne_nil)
    hreference hsame (fun e he => hacross e he _ List.mem_cons_self) hfront hpair hlast
  rw [← htext] at hmade
  have hsplice := hstill.splice_eq
  rw [hfirst.unique hmade, ← hx, Edit.put_append] at hsplice
  rw [hmade.run_append, run, hsplice]
  dsimp only
  rw [hrest.eq, hx]

end Replay

/-! ## A replay with one relocated edit -/

theorem replay_of_run {text new : Text} {edits : List Edit} {events : List Event}
    (hne : edits ≠ []) (h : Replay.run text (Edit.applicationOrder edits) = ⟨.ok new, events⟩) :
    replay text edits =
      ⟨.ok new, events ++ [.applied edits.length events.length text.length new.length]⟩ := by
  unfold replay
  rw [if_neg hne]
  dsimp only
  rw [h]

/-- A replay in which one edit has to be looked for, and the others fit the script and keep out of
each other's way and of the place it is found at, is the reference splice with the edit at that
place. This holds as long as the edits made before it leave it to be found there alone, and, if it
changes the length, no edit behind the place is made after it. -/
theorem replay_recovered {text : Text} {front back first last : List Edit} {a : Edit} {place : Nat}
    (hothers : ∀ e ∈ front ++ back, e.problems text = [])
    (hfound : a.Recoverable text place)
    (hside : SideBySide (front ++ a.moveTo text place :: back))
    (horder : Edit.applicationOrder (front ++ a :: back) = first ++ a :: last)
    (hstill : a.Recoverable (Edit.weave text 0 first.reverse) (Edit.placeAfter first place))
    (hlast : a.newText.length = a.expected.length ∨ ∀ e ∈ last, e.start ≤ place) :
    replay text (front ++ a :: back) =
      let new := Edit.weave text 0 (Edit.readingOrder (front ++ a.moveTo text place :: back))
      ⟨.ok new, [.relocated a (Edit.placeAfter first place),
        .applied (front ++ a :: back).length 1 text.length new.length]⟩ := by
  -- both orders agree on the other edits
  obtain ⟨first₀, last₀, horder₀, hothers₀⟩ := Edit.applicationOrder_middle front back a
  obtain ⟨first', last', horder', hothers'⟩ :=
    Edit.applicationOrder_middle front back (a.moveTo text place)
  have hsame : first ++ last = first' ++ last' := by
    have ha : a ∉ first₀ ++ last₀ := fun h => by
      rw [← hothers₀, Edit.mem_applicationOrder] at h
      exact hfound.problems_ne_nil (hothers a h)
    rw [List.mem_append, not_or] at ha
    rw [horder] at horder₀
    obtain ⟨rfl, -, rfl⟩ := (List.append_cons_inj_of_notMem ha.1 ha.2).1 horder₀.symm
    rw [← hothers₀, hothers']
  have hfit : ∀ e ∈ front ++ a.moveTo text place :: back, e.Fits text := by
    intro e he
    rcases List.mem_cons.1 (List.perm_middle.mem_iff.1 he) with rfl | hother
    · obtain ⟨-, -, u, v, htext, hu⟩ := Edit.relocation?_spec hfound.relocation?_eq
      exact ⟨u, v, htext, by simp [hu], by simp [hu]⟩
    · exact Edit.fits_of_problems_eq_nil (hothers e hother) (hside.point e he)
  have hbehind := hside.pairwise_applicationOrder fun e he => (hfit e he).inBounds.2.1
  have hrun := Replay.run_recovered hfound hsame
    (fun e he => hfit e (Edit.mem_applicationOrder.1 (horder' ▸ he))) (horder' ▸ hbehind)
    hstill hlast
  rw [← horder, ← horder', Edit.applicationOrder_eq_reverse (front ++ a.moveTo text place :: back),
    List.reverse_reverse] at hrun
  have hne : front ++ a :: back ≠ [] :=
    List.append_ne_nil_of_right_ne_nil front (List.cons_ne_nil a back)
  exact replay_of_run hne hrun

/-- A replacement whose region is out of date, with a replacement further along the line that is
made before it and an insertion in front of it that is made after it. -/
def movedEdit : Edit := ⟨.replace, .onLine 1 0 0 1, "2".toList, "30".toList, "update b".toList⟩

/-- The replacement between the region and the place of `movedEdit`. -/
def betweenEdit : Edit := ⟨.replace, .onLine 1 0 4 5, "1".toList, "10".toList, "update a".toList⟩

/-- The insertion in front of the region and the place of `movedEdit`. -/
def headEdit : Edit := ⟨.insert, .point 1 1 0, [], "x, ".toList, "add x".toList⟩

theorem replay_movedEdit :
    (∀ e ∈ [betweenEdit, headEdit], e.problems "a = 1, b = 2".toList = []) ∧
    movedEdit.Recoverable "a = 1, b = 2".toList 11 ∧
    SideBySide [betweenEdit, movedEdit.moveTo "a = 1, b = 2".toList 11, headEdit] ∧
    movedEdit.Recoverable "a = 10, b = 2".toList 12 ∧
    (replay "a = 1, b = 2".toList [betweenEdit, movedEdit, headEdit]).result =
      .ok "x, a = 10, b = 30".toList := by
  have hothers : ∀ e ∈ [betweenEdit, headEdit], e.problems "a = 1, b = 2".toList = [] := by decide
  have hfound : movedEdit.Recoverable "a = 1, b = 2".toList 11 :=
    ⟨by decide, by decide, by decide, by decide⟩
  have hside : SideBySide [betweenEdit, movedEdit.moveTo "a = 1, b = 2".toList 11, headEdit] :=
    ⟨by decide, by decide, by decide, by decide⟩
  have hstill : movedEdit.Recoverable "a = 10, b = 2".toList 12 :=
    ⟨by decide, by decide, by decide, by decide⟩
  have hreplay := @replay_recovered "a = 1, b = 2".toList [betweenEdit] [headEdit] [betweenEdit]
    [headEdit] movedEdit 11 hothers hfound hside (by decide) hstill (by decide)
  exact ⟨hothers, hfound, hside, hstill, (congrArg Replay.result hreplay).trans rfl⟩

/-- A replacement that is relocated to the beginning of its line, and grows. -/
def growingEdit : Edit := ⟨.replace, .onLine 1 0 4 6, "ab".toList, "XYZ".toList, "A".toList⟩

/-- An insertion right behind the place of `growingEdit`, which is made after it. -/
def overtakenEdit : Edit := ⟨.insert, .point 1 3 2, [], "|".toList, "B".toList⟩

/-- The insertion lands within the text that the relocated edit has put. -/
theorem replay_overtakenEdit :
    growingEdit.Recoverable "abcdef".toList 0 ∧ overtakenEdit.problems "abcdef".toList = [] ∧
    SideBySide [growingEdit.moveTo "abcdef".toList 0, overtakenEdit] ∧
    (replay "abcdef".toList [growingEdit, overtakenEdit]).result = .ok "XY|Zcdef".toList ∧
    Edit.weave "abcdef".toList 0
        (Edit.readingOrder [growingEdit.moveTo "abcdef".toList 0, overtakenEdit]) =
      "XYZ|cdef".toList := by
  refine ⟨⟨?_, ?_, ?_, ?_⟩, ?_, ⟨?_, ?_, ?_, ?_⟩, ?_, ?_⟩ <;> decide

end BuildScript
