import Plainsong.Text.Ranges
/- Letters and digits of all scripts, as the character classes of patterns and
   the reading of numerals need them. -/
namespace Plainsong.Text

def alphanumerics : RunTable := RunTable.ofText <|
  String.join
    ["1c.9 8.p 7.p 1c 8.1 2 4.1 2.2 2.m 2.u 2.cp 5.b f.4 8 2 3m.4 2.1 3.3 2 7 2.2 2 2.j 2.2a 2.3u 9.4l 2.11 3 7.14 2",
     "0.q 5.3 1a.16 m.9 5.1 2.2q 2 g.1 8.e 3 h 2.t u.2g c f.16 a.1 5 6.l 5 a 4 o.o 8.a 6.n 2.5 i.15 1n.1h 4 j 8.9 5.",
     "9 2.f 5.7 3.1 3.l 2.6 2 4.3 4 h e.1 2.2 5.b 3.5 3 9.5 5.1 3.l 2.6 2.1 2.1 2.1 w.3 2 8.9 3.2 h.8 2.2 2.l 2.6 2.",
     "1 2.4 4 j g.1 5.9 a c.7 3.1 3.l 2.6 2.1 2.4 4 v.1 2.2 5.9 2.6 c 2.5 4.2 2.3 4.1 2 2.1 4.1 4.2 4.b n m.c j.7 2.",
     "2 2.m 2.f 4 r.2 3 3.1 5.9 9.6 2 5.7 2.2 2.m 2.9 2.4 4 w.1 2.1 5.9 2.1 i.8 2.2 2.14 3 h 6.2 2.9 5.i 2.5 6.h 4.n",
     " 2.8 2 3.6 w.9 i.1b 2.1 d.6 a.9 14.1 2 2.4 2.n 2 2.9 2.1 a 3.4 2 a.9 3.3 x w.j d.7 2.z s.4 38.16 l.a 7.5 5.3 4",
     " 4.1 8.2 5.c d 2.9 7.11 2 6 3.16 2.98 2.3 3.6 2 2.3 3.14 2.3 3.w 2.3 3.6 2 2.3 3.e 2.1k 2.3 3.1u f.j 4.f h.2d ",
     "3.5 4.h7 3.g 2.p 6.22 4.a 8.h e.i f.h f.c 2.2 g.1f 10 5 4.9 7.9 n.9 7.2g 8.4 3.x 2 6.1x b.u 14.13 3.4 c.17 5.p",
     " 7.a 12.m a.1g 18.9 7.9 e 2m.1a i.7 4.9 16.t e.1j r.z t.9 4.1c 3.8 8.16 3.2 16.3 2.5 2.1 4 6.5b 1t.7p 3.5 3.11",
     " 3.5 3.7 2 2 2 2.u 3.1g 2.6 2 4.2 2.6 4.3 3.5 5.c 6.2 2.6 38.1 3.5 6.a 7.c 2u 5 3.9 2 4.4 7 2 2 2.3 2.a 3.3 6.",
     "4 5 2.1l k7.1n 27.l hj.t vh.6c 7.3 4.1 a 3.11 2 6 3.1j 8 h.m a.6 2.6 2.6 2.6 2.6 2.6 2.6 2.6 29 d2.2 q.8 8.4 3",
     ".4 5.2d 7.2 2.2h 2.3 6.16 2.2l 4.3 b.v 1d.f x.9 v.7 2.e x.9 14.e 8x.533 1t.h3g 1w.19 3.7g 4.r l.1a h.u 3.27 14",
     ".8 3.2u 3.1r 6.1 2 2.4 p.f 2.2 2.3 2.m e.5 b.1f f.1d t.9 p.5 4 2.1 2.11 b.m q.s 8.1a t.a 7.4 2.o 2.14 o.2 2.7 ",
     "5.9 7.m 4 4.1d 2 4.1 3.4 3 2 p.2 3.a 8.2 d.5 3.5 3.5 a.6 2.6 2.16 2.d 7.36 e.9 7.8mb d.m 5.1c 6it.a5 3.2x 13.6",
     " d.4 6 2.9 2.c 2.4 2 2.1 2.1 2.2z y.a2 j.1r 3.1h 15.b 39.4 2.3q k.9 8.p 7.p c.2g 4.5 3.5 3.5 3.2 10.b 2.p 2.i ",
     "2.1 2.e 3.d z.3e d.18 d.1k i.1 6t.s 4.1c h.q 5.z a.t 6.11 b.t 3.z 5.7 2.4 17.4d 3.9 7.z 5.z 5.13 9.1f d.a 2.e ",
     "2.6 2.1 2.a 2.e 2.6 2.1 1w.8m a.l b.7 p.5 2.15 2.8 1y.5 3 2.17 2.1 4 3.m 3.u 3.11 9.8 1d.i 2.1 6.w 5.p 1z.1j 5",
     ".j 3.1a g.3 2.2 2.s b.8 o.u 2.v x.7 2.r 7.4 h.1h b.l 3.q 6.p o.6 29.20 1k.1e e.1e 8.15 d.9 87.u 2.15 7.1 27.13",
     " 9.l c.3 s.h 1b.r l.m d.1g r.t 2.1 3 e.18 x.o 8.9 a.z g.9 5 3 9.y 4 d.1b f.3 c.a 2 5.j c.h 2.o 2d.6 2 2.3 2.e ",
     "2.9 8.1a i.9 c.7 3.1 3.l 2.6 2.1 2.4 4 j d.4 4f.1g j.3 6.9 6.2 v.1b l.1 2 9.9 4n.1a 16.3 11.1b l c.9 13.16 e 8",
     ".9 1j.q m.b 5.6 56.17 39.2a d.7 3 3.7 2.1 2.n g 2 f.9 1z.7 3.12 h 2 t b.13 8 m c.19 k j.20 7c.8 2.10 i g.s 6.t",
     " 35.6 2.1 2.11 m a.9 7.5 2.1 2.v f 8.9 8n.i 5a g.k 18.pl 2v.32 i.5f 219.2o g.tq 34i.g6 6nu.fs 8.u 2.9 7.26 2.9",
     " 7.t j.1b h.3 d.9 2.6 2.k 6.i j5.2e 2y.22 6 1v.c 1t.1 2 t.4qf 9.yd 17.8 6w8.3 2.6 2.1 2.82 1a.2 i.3 9.az 1s5.2",
     "y 6.c 4.8 8.9 4ef.j 31.o 3s.2c 2.1y 2.1 3 3.1 3.3 2.b 2 2.6 2.1s 2.3 3.7 2.6 2.r 2.3 2.4 2 4.6 2.9f 3.o 2.o 2.",
     "u 2.o 2.u 2.o 2.u 2.o 2.u 2.o 2.7 3.1d 1dt.u de.18 b.6 3.9 5 8y.t j.17 5.9 yv.6 2.3 2.1 2.e 2.5g 3.8 1d.1v 8 5",
     ".9 m0.1m 2.2 2.3 25.18 2.e 5f.3 2.q 2.1 2 3 2.9 2.3 2 2 7 5 2 2 2.2 2.1 2 3 2 2 2 2 2.1 2 3.3 2.6 2.3 2.3 2 2.",
     "9 2.g 6.2 2.4 2.g g5.c 25g.9 sn.wyn x.37c 8.65 3.4g1 f.5rk 2e8.f1 15v.3t6"]

def decimals : RunTable := RunTable.ofText <|
  String.join
    ["1c.9 17r.9 3r.9 5j.9 bh.9 3b.9 3b.9 3b.9 3b.9 3b.9 3b.9 3b.9 3b.9 3b.9 2p.9 3b.9 1z.9 7r.9 1z.9 1fr.9 13.9 8d.",
     "9 3l.9 4n.9 7.9 53.9 2f.9 3r.9 7.9 r7r.9 iv.9 13.9 5j.9 n.9 2f.9 bb.9 gev.9 13b.9 1on.9 ml.9 3l.9 1p.9 41.9 7r",
     ".9 9j.9 3b.9 af.9 2v.9 2v.9 br.9 2v.9 l3.9 6v.9 1z.9 f5j.9 2f.9 3r.9 lf9.1d 1tt.9 br.9 193.9 3o7.9"]

def isWordChar (c : Char) : Bool :=
  if c.toNat < 128 then c.isAlphanum || c == '_' else alphanumerics.contains c

def decimalDigit? (c : Char) : Option Nat :=
  if c.isDigit then some (c.toNat - '0'.toNat)
  else if c.toNat < 128 then none
  else (decimals.find? c.toNat).map fun run => (c.toNat - run.first) % 10

def isDecimal (c : Char) : Bool := (decimalDigit? c).isSome

def readDigits : List Char → Nat → Bool → Option Nat
  | [], n, afterDigit => if afterDigit then some n else none
  | c :: r, n, afterDigit =>
    if c = '_' then (if afterDigit then readDigits r n false else none)
    else match decimalDigit? c with
      | some d => readDigits r (n * 10 + d) true
      | none => none

def readInt : List Char → Option Int
  | '-' :: r => (readDigits r 0 false).map fun n => -(n : Int)
  | '+' :: r => (readDigits r 0 false).map Int.ofNat
  | r => (readDigits r 0 false).map Int.ofNat

end Plainsong.Text
