/-
ForceDiagram/Proofs/Scene/Bowing.lean

Two links back and forth bow apart by the same distance.

Both are drawn by one formula, each from its own end and with a distance of its own sign
(`sideways`).  On the way round, differences change their sign, so their quotient does not, and
neither do the angle and its sine and cosine; only the distance does, and with it the whole
displacement.  Two cases need care.  A level segment has no quotient and is displaced by its
distance.  In an upright one the quotient is a zero, of one sign on the way there and of another
one on the way back; the sign goes on to the sine, which makes the displacement zero as well.

What is used of rounded numbers is `Scalar.Mirrored`, and of angles `Scalar.Turning`.

Which links are partners is known from the matching of the records (`Bow.Pairs`); a link without
partner has the distance zero and so is not displaced at all.

Main result: `Graph.tick_bows_apart`.  Its hypotheses hold of single precision with a rough table
of angles (`Eighths`).
-/
import ForceDiagram.Proofs.Scalar.Mirrored
import ForceDiagram.Proofs.Scene.Contained

namespace ForceDiagram

variable {F : Type} [Scalar F]

namespace Scalar

/-- Sines and cosines of angles at which a segment can stand are finite, and at zero the sine and
the angle keep the sign of their argument, while the cosine does not see it. -/
structure Turning (F : Type) [Scalar F] : Prop where
  isFinite_sin_atan : ∀ {a : F}, isNumber a = true → isFinite (sin (atan a)) = true
  isFinite_cos_atan : ∀ {a : F}, isNumber a = true → isFinite (cos (atan a)) = true
  isZero_atan : ∀ {a : F}, IsZero a → IsZero (atan a)
  isZero_sin : ∀ {a : F}, IsZero a → IsZero (sin a)
  cos_of_isZero : ∀ {a b : F}, IsZero a → IsZero b → cos a = cos b

theorem Mirrored.isZero_of_opposite (h : Mirrored F) {a b : F} (hab : Opposite a b) :
    IsZero a ↔ IsZero b := by
  rcases hab with rfl | ⟨ha, hb⟩
  · exact h.isZero_neg_iff.symm
  · exact iff_of_true ha hb

end Scalar

open Scalar

/-! ### Displacements -/

/-- The vector turned round. -/
def Vec.opposite (a : Vec F) : Vec F := ⟨-a.x, -a.y⟩

/-- How far a segment leans to the side for each step down. -/
def slope (start finish : Vec F) : F := (finish.x - start.x) / (finish.y - start.y)

section

variable {distance : F} {p q : Vec F}

theorem sideways_of_level (h : IsZero (q.y - p.y)) : sideways distance p q = ⟨0, distance⟩ :=
  if_pos h

theorem sideways_of_not_level (h : ¬ IsZero (q.y - p.y)) :
    sideways distance p q =
      ⟨-distance * cos (atan (slope p q)), distance * sin (atan (slope p q))⟩ :=
  if_neg h

variable (h : Mirrored F) (ht : Turning F)
include h

theorem isNumber_slope (hpq : (q - p).isFinite = true) (hlevel : ¬ IsZero (q.y - p.y)) :
    isNumber (slope p q) = true := by
  obtain ⟨hx, hy⟩ := Bool.and_eq_true_iff.mp hpq
  exact h.isNumber_div hx hy hlevel

/-- Seen from its other end a segment has the same slope, up to the sign of a zero. -/
theorem slope_comm (hpq : (q - p).isFinite = true) (hlevel : ¬ IsZero (q.y - p.y)) :
    slope q p = slope p q ∨ IsZero (slope p q) ∧ IsZero (slope q p) := by
  obtain ⟨-, hfinite⟩ := Bool.and_eq_true_iff.mp hpq
  have hy : p.y - q.y = -(q.y - p.y) :=
    (h.opposite_sub q.y p.y).resolve_right fun hzero => hlevel hzero.1
  rw [slope, slope, hy]
  rcases h.opposite_sub q.x p.x with hx | ⟨hzero, hzero'⟩
  · rw [hx, h.neg_div_neg]
    exact .inl rfl
  · exact .inr ⟨h.isZero_div hzero hfinite hlevel,
      h.isZero_div hzero' (h.isFinite_neg hfinite) (h.isZero_neg_iff.not.mpr hlevel)⟩

include ht

/-- A segment that is drawn by no distance is not displaced. -/
theorem isZero_sideways (hdistance : IsZero distance) (hpq : (q - p).isFinite = true) :
    IsZero (sideways distance p q).x ∧ IsZero (sideways distance p q).y := by
  by_cases hlevel : IsZero (q.y - p.y)
  · rw [sideways_of_level hlevel]
    exact ⟨h.isZero_zero, hdistance⟩
  · have hslope := isNumber_slope h hpq hlevel
    rw [sideways_of_not_level hlevel]
    exact ⟨h.isZero_mul (h.isZero_neg_iff.mpr hdistance) (ht.isFinite_cos_atan hslope),
      h.isZero_mul hdistance (ht.isFinite_sin_atan hslope)⟩

/-- The way there and the way back, by opposite distances, are displaced by opposite vectors. -/
theorem sideways_comm (hdistance : isFinite distance = true) (hpq : (q - p).isFinite = true) :
    (sideways (-distance) q p == (sideways distance p q).opposite) = true := by
  have hnumber := h.isNumber_neg (h.isNumber_of_isFinite hdistance)
  have hturned : IsZero (q.y - p.y) ↔ IsZero (p.y - q.y) :=
    h.isZero_of_opposite (h.opposite_sub q.y p.y)
  by_cases hlevel : IsZero (q.y - p.y)
  · rw [sideways_of_level hlevel, sideways_of_level (hturned.mp hlevel)]
    have hx := h.beq_of_isZero h.isZero_zero (h.isZero_neg_iff.mpr h.isZero_zero)
    exact Bool.and_eq_true_iff.mpr ⟨hx, hnumber⟩
  · have hslope := isNumber_slope h hpq hlevel
    -- a factor hands its sign on to the product
    have hproduct : ∀ {a b : F}, isFinite a = true → isFinite b = true →
        (-a * b == -(a * b)) = true := by
      intro a b ha hb
      rw [h.neg_mul]
      exact h.isNumber_neg (h.isNumber_mul ha hb)
    have hx := hproduct (h.isFinite_neg hdistance) (ht.isFinite_cos_atan hslope)
    rw [sideways_of_not_level hlevel, sideways_of_not_level (hturned.not.mp hlevel)]
    rcases slope_comm h hpq hlevel with hsame | ⟨hzero, hzero'⟩
    · rw [hsame]
      exact Bool.and_eq_true_iff.mpr ⟨hx, hproduct hdistance (ht.isFinite_sin_atan hslope)⟩
    · -- an upright segment: both sines are zeros, whatever their signs
      have hsin := h.mul_isZero hdistance (ht.isZero_sin (ht.isZero_atan hzero))
      have hsin' := h.mul_isZero (h.isFinite_neg hdistance) (ht.isZero_sin (ht.isZero_atan hzero'))
      have hy := h.beq_of_isZero hsin' (h.isZero_neg_iff.mpr hsin)
      rw [ht.cos_of_isZero (ht.isZero_atan hzero') (ht.isZero_atan hzero)]
      exact Bool.and_eq_true_iff.mpr ⟨hx, hy⟩

omit ht in
/-- A finite place to which zeros are added stays where it is. -/
theorem add_beq_self {a b : Vec F} (ha : a.isFinite = true) (hb : IsZero b.x ∧ IsZero b.y) :
    (a + b == a) = true := by
  obtain ⟨hx, hy⟩ := Bool.and_eq_true_iff.mp ha
  exact Bool.and_eq_true_iff.mpr ⟨h.add_isZero (h.isNumber_of_isFinite hx) hb.1,
    h.add_isZero (h.isNumber_of_isFinite hy) hb.2⟩

end

namespace Graph

/-! ### Links -/

variable {g : Graph F}

/-- Where a number is that of a node, the position is that of the node. -/
theorem exists_positionOf_eq {i : Nat} (hi : i < g.nodes.size) :
    ∃ n ∈ g.nodes, g.positionOf i = n.pos := by
  refine ⟨g.nodes[i], Array.getElem_mem hi, ?_⟩
  rw [positionOf, Array.getElem?_eq_getElem hi]
  rfl

/-- The nodes of a graph are at finite places with finite differences. -/
structure Measured (g : Graph F) : Prop where
  isFinite : ∀ n ∈ g.nodes, n.pos.isFinite = true
  isFinite_sub : ∀ n ∈ g.nodes, ∀ m ∈ g.nodes, (n.pos - m.pos).isFinite = true

section

variable {config : Config F} {l l' : Link F} (h : Mirrored F) (ht : Turning F) (hg : g.Measured)
include hg

/-- A link runs between nodes, so its ends are finite, and so is what lies between them. -/
theorem Measured.isFinite_ends (hclosed : g.Closed) (hl : l ∈ g.links) :
    (g.positionOf l.source).isFinite = true ∧ (g.positionOf l.target).isFinite = true ∧
      (g.positionOf l.target - g.positionOf l.source).isFinite = true := by
  obtain ⟨hsource, htarget⟩ := hclosed l hl
  obtain ⟨n, hn, hstart⟩ := exists_positionOf_eq hsource
  obtain ⟨m, hm, hfinish⟩ := exists_positionOf_eq htarget
  rw [hstart, hfinish]
  exact ⟨hg.isFinite n hn, hg.isFinite m hm, hg.isFinite_sub m hm n hn⟩

include h ht

/-- Of two links that run opposite ways one bows forth and one back: so they are drawn with
opposite offsets. -/
theorem asideOf_swap (hclosed : g.Closed) (hl : l ∈ g.links) (hends : l'.ends = l.ends.swap)
    (hforth : l.bow = .forth) (hback : l'.bow = .back)
    (hradius : Scalar.isFinite config.nodeRadius = true) :
    (g.asideOf config l' == (g.asideOf config l).opposite) = true := by
  have hsource : l'.source = l.target := congrArg Prod.fst hends
  have htarget : l'.target = l.source := congrArg Prod.snd hends
  have hunit : Scalar.isFinite (1 * config.bowDistance) = true :=
    h.isFinite_one_mul (h.isFinite_quarter hradius)
  rw [asideOf, asideOf, hforth, hback, hsource, htarget, Bow.factor, Bow.factor, h.neg_mul]
  exact sideways_comm h ht hunit (hg.isFinite_ends hclosed hl).2.2

/-- A straight link is drawn where its segment is. -/
theorem isZero_asideOf (hclosed : g.Closed) (hl : l ∈ g.links) (hstraight : l.bow = .straight)
    (hradius : Scalar.isFinite config.nodeRadius = true) :
    IsZero (g.asideOf config l).x ∧ IsZero (g.asideOf config l).y := by
  have hunit := h.isZero_mul h.isZero_zero (h.isFinite_quarter hradius)
  rw [asideOf, hstraight]
  exact isZero_sideways h ht hunit (hg.isFinite_ends hclosed hl).2.2

end

/-- The flag that the matching asks for is that of a link. -/
theorem link_of_fits {records : List Record} (h : g.shape = (ofRecords records : Graph F).shape)
    {p : Nat} {u v : String} (hp : (records.map Record.ends)[p]? = some (u, v)) (b : Bow)
    (hb : Bow.Fits (records.map Record.ends) p b) : ∃ l, g.links[p]? = some l ∧ l.bow = b ∧
      l.ends = ((namesOf records).idxOf u, (namesOf records).idxOf v) := by
  have hlt : p < g.links.size := by
    rw [size_links_of_shape h, ← List.length_map (f := Record.ends)]
    exact (List.getElem?_eq_some_iff.mp hp).1
  have hl := Array.getElem?_eq_getElem hlt
  obtain ⟨r, hr, -, hends, hfits⟩ := link_of_shape h hl
  rw [List.getElem?_map, hr] at hp
  obtain ⟨rfl, rfl⟩ := Prod.mk.inj (Option.some.inj hp)
  exact ⟨_, hl, hfits.unique hb, hends⟩

theorem getElem?_links_tick (viewport : Viewport F) (config : Config F) (p : Nat) :
    (g.tick viewport config).1.links[p]? = g.links[p]?.map (g.bowed config.bowDistance) :=
  Array.getElem?_map ..

theorem getElem?_edges_tick (viewport : Viewport F) (config : Config F) (p : Nat) :
    (g.tick viewport config).2.edges[p]? =
      (g.tick viewport config).1.links[p]?.map (g.edgeShape p) := by
  rw [← Array.getElem?_toList]
  exact List.getElem?_mapIdx ..

open Bow in
/-- **Partners bow apart by the same distance, and the others run straight.**  The graph has
the names and records of a dataset, and its nodes are at finite places with finite differences.

* Links that the matching of the records pairs are flagged forth and back, run opposite ways,
  and are drawn with offsets that are negatives of each other.
* Every link flagged forth is that of one pair, and so is every link flagged back.
* A straight link is drawn with the offset zero, so its path begins and ends with its
  segment. -/
theorem tick_bows_apart (h : Mirrored F) (ht : Turning F) {records : List Record}
    (hshape : g.shape = (ofRecords records : Graph F).shape) (hg : g.Measured)
    (config : Config F) (hradius : Scalar.isFinite config.nodeRadius = true)
    (viewport : Viewport F) :
    let ends := records.map Record.ends
    let ticked := (g.tick viewport config).1
    let scene := (g.tick viewport config).2
    (∀ p q, Pairs ends p q → ∃ forth back : Link F, ticked.links[p]? = some forth ∧
      ticked.links[q]? = some back ∧ forth.bow = .forth ∧ back.bow = .back ∧
      back.ends = forth.ends.swap ∧ (back.offset == forth.offset.opposite) = true) ∧
    (∀ (p : Nat) (l : Link F), ticked.links[p]? = some l → l.bow = .forth →
      ∃! q, Pairs ends p q) ∧
    (∀ (q : Nat) (l : Link F), ticked.links[q]? = some l → l.bow = .back →
      ∃! p, Pairs ends p q) ∧
    ∀ (p : Nat) (l : Link F), ticked.links[p]? = some l → l.bow = .straight →
      (l.offset == .zero) = true ∧
      ∃ e : EdgeShape F, scene.edges[p]? = some e ∧ e.offset = l.offset ∧
        (e.pathStart == e.start) = true ∧ (e.pathEnd == e.finish) = true := by
  intro ends ticked scene
  have hclosed : g.Closed := (closed_ofRecords records).of_shape hshape
  have hticked : ticked.shape = (ofRecords records : Graph F).shape :=
    (shape_tick viewport config g).trans hshape
  refine ⟨fun p q hpq => ?_, fun p l hl hforth => ?_, fun q l hl hback => ?_,
    fun p l hl hstraight => ?_⟩
  · obtain ⟨u, v, hu, hv⟩ := hpq.reverse
    obtain ⟨l, hl, hforth, hends⟩ := link_of_fits hshape hu .forth ⟨q, hpq⟩
    obtain ⟨l', hl', hback, hends'⟩ := link_of_fits hshape hv .back ⟨p, hpq⟩
    have hswap : l'.ends = l.ends.swap := by rw [hends, hends', Prod.swap_prod_mk]
    have hdrawn : ∀ {i : Nat} {l : Link F}, g.links[i]? = some l →
        ticked.links[i]? = some (g.bowed config.bowDistance l) := by
      intro i l hl
      rw [getElem?_links_tick, hl, Option.map_some]
    exact ⟨_, _, hdrawn hl, hdrawn hl', hforth, hback, hswap,
      asideOf_swap h ht hg hclosed (Array.mem_of_getElem? hl) hswap hforth hback hradius⟩
  · obtain ⟨r, -, -, -, hfits⟩ := link_of_shape hticked hl
    rw [hforth] at hfits
    obtain ⟨q, hq⟩ := hfits
    exact ⟨q, hq, fun r hr => hr.right_unique hq⟩
  · obtain ⟨r, -, -, -, hfits⟩ := link_of_shape hticked hl
    rw [hback] at hfits
    obtain ⟨p, hp⟩ := hfits
    exact ⟨p, hp, fun r hr => hr.left_unique hp⟩
  · obtain ⟨l, hlink, rfl⟩ :=
      Option.map_eq_some_iff.mp ((getElem?_links_tick viewport config p).symm.trans hl)
    have hmem := Array.mem_of_getElem? hlink
    have hzero := isZero_asideOf h ht hg hclosed hmem hstraight hradius
    obtain ⟨hstart, hfinish, -⟩ := hg.isFinite_ends hclosed hmem
    have hedge := getElem?_edges_tick (g := g) viewport config p
    rw [show (g.tick viewport config).1.links[p]? = _ from hl] at hedge
    exact ⟨Bool.and_eq_true_iff.mpr hzero, _, hedge, rfl, add_beq_self h hstart hzero,
      add_beq_self h hfinish hzero⟩

end Graph

/-! ### Eighths of a turn -/

/-- Numbers in single precision, with the sines and cosines of eighths of a turn and no others. -/
def Eighths : Type := Float32

namespace Eighths

/-- The angle at which a segment stands that leans to the side by as much as it goes down. -/
def atan (x : Float32) : Float32 := if x == 0 then x else if 0 < x then 0.7853982 else -0.7853982

def sin (x : Float32) : Float32 := if x == 0 then x else if 0 < x then 0.70710677 else -0.70710677

def cos (x : Float32) : Float32 := if x == 0 then 1 else 0.70710677

instance : Scalar Eighths := { (inferInstance : Scalar Float32) with atan, sin, cos }

theorem mirrored : Mirrored Eighths := { Single.mirrored with }

section

variable {x : Float32}

theorem atan_of_isZero (hx : IsZero x) : Eighths.atan x = x := if_pos hx

theorem sin_of_isZero (hx : IsZero x) : Eighths.sin x = x := if_pos hx

theorem cos_of_isZero (hx : IsZero x) : Eighths.cos x = 1 := if_pos hx

theorem atan_of_not_isZero (hx : ¬ IsZero x) :
    Eighths.atan x = 0.7853982 ∨ Eighths.atan x = -0.7853982 := by
  rw [show Eighths.atan x = if 0 < x then 0.7853982 else -0.7853982 from if_neg hx]
  exact ite_eq_or_eq ..

end

theorem turning : Turning Eighths where
  isFinite_sin_atan := by
    intro (x : Float32) _
    show Float32.isFinite (Eighths.sin (Eighths.atan x)) = true
    by_cases hx : IsZero x
    · rw [atan_of_isZero hx, sin_of_isZero hx]
      exact Single.isFinite_of_isZero hx
    · rcases atan_of_not_isZero hx with heq | heq <;> rw [heq] <;> decide +kernel
  isFinite_cos_atan := by
    intro (x : Float32) _
    show Float32.isFinite (Eighths.cos (Eighths.atan x)) = true
    unfold Eighths.cos
    split <;> decide +kernel
  isZero_atan := by
    intro (x : Float32) hx
    show IsZero (Eighths.atan x)
    rwa [atan_of_isZero hx]
  isZero_sin := by
    intro (x : Float32) hx
    show IsZero (Eighths.sin x)
    rwa [sin_of_isZero hx]
  cos_of_isZero := fun hx hy => (cos_of_isZero hx).trans (cos_of_isZero hy).symm

end Eighths

namespace Graph

/-- Partners that are upright, level, askew and of no length, and a link without partner. -/
theorem tick_bows_apart_by_eighths :
    let records : List Record := [⟨"a", "b", "response"⟩, ⟨"b", "a", "response"⟩,
      ⟨"b", "c", "response"⟩, ⟨"c", "b", "response"⟩, ⟨"a", "c", "response"⟩,
      ⟨"c", "a", "response"⟩, ⟨"c", "c", "response"⟩, ⟨"c", "c", "response"⟩,
      ⟨"a", "a", "response"⟩]
    let ends := records.map Record.ends
    let place : String → Vec Eighths := fun name =>
      if name = "a" then ⟨0, 0⟩ else if name = "b" then ⟨0, 100⟩ else ⟨100, 100⟩
    let g : Graph Eighths := (ofRecords records).mapNodes fun n => { n with pos := place n.name }
    let config : Config Eighths := .standard
    let ticked := (g.tick ⟨1200, 800⟩ config).1
    Mirrored Eighths ∧ Turning Eighths ∧ g.shape = (ofRecords records : Graph Eighths).shape ∧
      g.Measured ∧ Scalar.isFinite config.nodeRadius = true ∧
      Bow.Pairs ends 0 1 ∧ Bow.Pairs ends 6 7 ∧
      ∀ p q, Bow.Pairs ends p q → ∃ forth back : Link Eighths, ticked.links[p]? = some forth ∧
        ticked.links[q]? = some back ∧ forth.bow = .forth ∧ back.bow = .back ∧
        back.ends = forth.ends.swap ∧ (back.offset == forth.offset.opposite) = true := by
  intro records ends place g config ticked
  have hname : ∀ n : Node Eighths, ({ n with pos := place n.name } : Node Eighths).name = n.name :=
    fun _ => rfl
  have hshape : g.shape = (ofRecords records : Graph Eighths).shape :=
    shape_eq_iff.mpr ⟨map_map_of_eq hname _, rfl⟩
  have hg : g.Measured := ⟨by decide +kernel, by decide +kernel⟩
  have hradius : Scalar.isFinite config.nodeRadius = true := by decide +kernel
  have hupright : Bow.Pairs ends 0 1 :=
    .across (k := 0) (by decide) ⟨rfl, by decide⟩ ⟨rfl, by decide⟩ (by decide)
  have hloops : Bow.Pairs ends 6 7 := .loops (k := 0) rfl ⟨rfl, by decide⟩ ⟨rfl, by decide⟩
  exact ⟨Eighths.mirrored, Eighths.turning, hshape, hg, hradius, hupright, hloops,
    (tick_bows_apart Eighths.mirrored Eighths.turning hshape hg config hradius ⟨1200, 800⟩).1⟩

end Graph

end ForceDiagram
