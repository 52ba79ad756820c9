import Plainsong.Text.Ranges
/- Characters that are written out as escapes in a quoted form because they
   have no visible shape: controls, formats, surrogates, private and
   unassigned code points, and all separators but the blank. -/
namespace Plainsong.Text

def unprintable : RunTable := RunTable.ofText <|
  String.join
    ["0.v 2o.x d jv.1 7.3 8 2 l b2 13.1 1f.1 4 1k.7 s.3 7.g n 5d 1d.1 1o.1 2u.d 1o.1 1e.1 g t.1 2 c.4 w.8 23 4i 9.1 ",
     "3.1 n 8 2.2 5.1 a.1 3.1 5.7 2.3 3 6.1 q.1 4 7.3 3.1 n 8 3 3 3.1 2 6.3 3.1 4.2 2.6 5 2.6 i.9 4 a 4 n 8 3 6.1 b ",
     "4 4.1 2.e 5.1 d.6 8 4 9.1 3.1 n 8 3 6.1 a.1 3.1 4.6 4.3 3 6.1 j.9 3 7.2 4 5.2 3 2 3.2 3.2 4.2 d.3 6.2 4 5.1 2.",
     "5 2.d m.4 e 4 o h.1 a 4 5.6 3 4.1 2.1 5.1 b.6 n 4 o b 6.1 a 4 5.6 3.5 3 5.1 b 3.c e 4 1g 4 7.3 h.1 r 4 j.2 p a",
     " 2.1 8.2 2.3 7 2 9.5 b.1 4.b 1n.3 u.10 3 2 6 p 2 o.1 6 2 7.1 b.1 5.v 21 11.3 14 11 g e.10 5j 2.4 2.1 ai 5.1 8 ",
     "2 5.1 16 5.1 y 5.1 8 2 5.1 g 1m 5.1 1w.1 x.2 r.5 2f.1 7.1 ht t.2 2i.6 n.8 p.8 l.b e 4 3.b 2n.1 b.5 b.5 f c.5 2",
     "i.6 18.4 1z.9 w d.3 d.3 2.2 17.1 6.a 19.3 r.5 c.2 1r.1 1u u.1 c.5 b.5 f.1 w.1c 26.2 1c 39.7 1p.2 g.2 1p.6 18.1",
     " c.7 18.4 ev.1 7.1 13.1 7.1 9 2 2 2 w.1 1i g f.1 7 k.1 4 a.g p.7 1c.g 3.1 s e.2 y.e y.e 3x.3 ig.o c.k 1ed.1 x ",
     "9q.4 1a 2.4 2.1 1l.6 3.d p.8 8 8 8 8 8 8 8 8 3j.x r 2i.b 5z.p d.4 1s 2f.1 2w.4 18 2n 2d.b 1c mlq.2 1k.8 9p.j 5",
     "5.7 5o.4 3 2 6.n 1o.2 b.5 1l.7 1z.7 d.5 39.a v.2 27 c.3 y 1k.8 f.1 b.1 2w.n t.9 7.1 7.1 7.8 8 8 1p.3 3j.1 b.5 ",
     "8md.b o.3 1e.6ir a7.1 2z.11 8.b 6.4 r 6 2 3 3 3i.f ce.1 1j.6 2.v 17.5 1g k 5.3 6 3s.3 5b.2 7.1 7.1 7.1 4.2 8 8",
     ".c 3.1 d r k 3 g.1 f.x 3g.4 4.3 1a.2 2h e.2 2.1a 1b.3l u.2 1e.e t.3 11.8 v.4 18.4 v 12.3 f.15 4f.1 b.5 11.3 11",
     ".3 15.7 1h.a d g 8 3 c g 8 3.1u 8o.8 n.9 9.n 7 17 a.1w 7.1 2 19 3.2 2.1 o 21.7 a.1b k 3.4 y.2 s.4 2.1r 1l.3 l.",
     "1 1f 3.4 9 4 u.1 4.3 b.6 a.6 1t.v 14.3 d.8 1j.2 u.1 s.4 r.6 5.b 8.27 22.1i 1g.c 1g.6 1b.7 b.85 w 17 4.1 3.25 1",
     "5.7 17.l r.11 t.j o.8 27.3 11.8 1r 6.c q.6 b.5 1i j.7 14.8 2p l.a j 19.1s 8 2 5 g c.5 1o.4 b.5 5 9.1 3.1 n 8 3",
     " 6 b.1 3.1 4.1 2.5 2.4 8.1 8.2 6.3u 2l 6.t 21.7 b.4l 1j.1 13.x 1y.a b.5 e.i 1n.5 b.1h s.1 g.3 o.54 1p.2r 2c.b ",
     "9.1 2.1 9 3 v 3.1 d.8 b.1x 9.1 1b.1 c.q 21.7 2c.c 22.7a a 1a f.9 u.2 x.1 n f.20 8 3 19.2 2 3 a.7 b.5 7 3 12 3 ",
     "7.6 b.8l q.52 2.e 1f.c po.2t 34 6.a 5h.217 2s.c ts.34g g8.6ns fu.6 w b.3 2a b.5 v.1 7.9 1z.9 b 8 m.4 k.j3 2k.2",
     "s 24.3 1m.6 i.1r 6.a 3.d 4qh.7 yf.15 a.6w6 5 8 3 84.18 4.g 5.7 b1.1s3 30.4 e.2 a.6 b.1 5.3mn 1b.1 o.8 39.1n 6v",
     ".9 14.1 23.7 35.k 1z.49 l.b 2g.8 q.3q 2e 20 3.1 2.1 3.1 5 d 2 8 1u 5.1 9 8 t 5 6 2.2 8 9h.1 85.1 jj.e 6 g.un w",
     ".68 8 i.1 8 3 6.5w 1a.2 f.1 b.3 3.8v w.g 1n.4 2.yn 8 5 3 g 5i.1 h.14 25.3 b.3 3.ls 1x.23 1q.5d 5 s 3 2.1 2 b 5",
     " 2 2.5 2.3 2 2 2 4 3 2.1 2 2 2 2 2 3 2.1 5 8 5 5 2 b i.4 4 6 i.1f 3.7h 19.3 2t.b g.1 g g 12.9 4v.1j u.c 19.3 a",
     ".6 3.d 7.49 rd.4 h.2 e.2 39.b 2i.6 d.3 2.e d.3 1l.7 b.5 15.7 v.1 3.25 9h.b f.1 6.2 6.2 8.8 u.2 c.4 7.9 b.5 9.7",
     " 8.8 44 1k.10 b.sl wyp.v 37e.6 67.1 4g3.d 5rm.2e6 f3.15t 3t8.fcms 6p.47bj"]

def isPrintable (c : Char) : Bool :=
  if c.toNat < 127 then 32 ≤ c.toNat else !unprintable.contains c

end Plainsong.Text
