namespace Stencil.Text.Utf16

def leadBase : Nat := 0xD800

def trailBase : Nat := 0xDC00

def surrogates : Nat := 0x400

def pairBase : Nat := 0x10000

def isLead (unit : Nat) : Bool :=
  leadBase ≤ unit && unit < leadBase + surrogates

def isTrail (unit : Nat) : Bool :=
  trailBase ≤ unit && unit < trailBase + surrogates

def units (c : Char) : List Nat :=
  if c.toNat < pairBase then [c.toNat]
  else
    let offset := c.toNat - pairBase
    [leadBase + offset / surrogates, trailBase + offset % surrogates]

def pair (lead trail : Nat) : Char :=
  .ofNat (pairBase + (lead - leadBase) * surrogates + (trail - trailBase))

def decode? : List Nat → Option (List Char)
  | [] => some []
  | lead :: trail :: rest =>
      if isLead lead then
        if isTrail trail then (pair lead trail :: ·) <$> decode? rest else none
      else if isTrail lead then none
      else (Char.ofNat lead :: ·) <$> decode? (trail :: rest)
  | [unit] => if isLead unit || isTrail unit then none else some [.ofNat unit]

end Stencil.Text.Utf16
