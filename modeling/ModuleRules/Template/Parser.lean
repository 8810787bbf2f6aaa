import ModuleRules.Template.Layout

/-!
# Reading templates

The tags are gone through from the last to the first. A closing tag starts a
block, the tag for the other case divides it once, tags that chain blocks
before that put what was read into a block of their own for the other case,
and the opening tag of the same name completes it. The blocks of decorators
and inclusions have no other case.
-/

namespace ModuleRules.Template

structure Open where
  name : Text
  body : Template := .done
  otherwise : Option Template := none

/-- The blocks around the place that was reached, the innermost first, and what follows them. -/
structure Reading where
  blocks : List Open := []
  rest : Template := .done

namespace Reading

def prepend (f : Template → Template) (s : Reading) : Reading :=
  match s.blocks with
  | [] => { s with rest := f s.rest }
  | b :: bs => { s with blocks := { b with body := f b.body } :: bs }

def text (t : Text) (s : Reading) : Reading := if t = [] then s else s.prepend (.text t)

def close (s : Reading) (name : Option Text) (f : Template → Template → Template) :
    Option Reading :=
  match s.blocks with
  | ⟨closing, body, none⟩ :: bs =>
    if name = some closing then some (prepend (f body) { s with blocks := bs }) else none
  | _ => none

/-- Puts a tag in front. A decorator without block is one that nobody knows. -/
def step (s : Reading) (tag : Tag) : Option Reading :=
  if !tag.isSound then none
  else match tag with
  | .value a => some (s.prepend (.value a))
  | .call c => some (s.prepend (.block c .done .done))
  | .decorator c => some (s.prepend (.decorate { c with helper := '*' :: c.helper } .done))
  | .inclusion i => some (s.prepend (.inclusion i .done))
  | .comment => some s
  | .closing name => some { s with blocks := ⟨name, .done, none⟩ :: s.blocks }
  | .otherwise =>
    match s.blocks with
    | ⟨name, body, none⟩ :: bs => some { s with blocks := ⟨name, .done, some body⟩ :: bs }
    | _ => none
  | .chain c =>
    match s.blocks with
    | ⟨name, body, otherwise⟩ :: bs =>
      let chained := .block c body (otherwise.getD .done) .done
      some { s with blocks := ⟨name, .done, some chained⟩ :: bs }
    | [] => none
  | .opening c =>
    match s.blocks with
    | ⟨name, body, otherwise⟩ :: bs =>
      if name = c.helper then
        some (prepend (.block c body (otherwise.getD .done)) { s with blocks := bs })
      else none
    | [] => none
  | .openingDecorator c => s.close (some c.helper) (.decorate c)
  | .openingInclusion i => s.close i.fixedName? (.inclusion i)

end Reading

def Pieces.read? (p : Pieces) : Option Template := do
  let s ← p.marks.foldrM (fun (m, t) s => Reading.step (s.text t) m.tag) {}
  match s.text p.start with
  | ⟨[], t⟩ => some t
  | _ => none

def parse (t : Text) : Except TemplateError Template :=
  match (pieces? t).bind fun p => p.layOut.read? with
  | some x => .ok x
  | none => .error .syntaxFlaw

end ModuleRules.Template
