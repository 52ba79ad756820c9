import Plainsong.Text.Ranges
/- Upper, lower and title case over all scripts, by the full mappings of the
   Unicode standard: a character may become several (`ß` is `SS`). -/
namespace Plainsong.Text

def upperMap : RunTable := RunTable.ofText <|
  String.join
    ["2p.p=1t 1n=po 16:(SS) 1.m=5c 2.6=60 1=ag 2*o=74 2:I 2*3=8i 3=8p 2*7=8r 1=jg.26 2*n=96 3:Ź~Ż~ŽSɃ~~Ƃ~Ƅ~~Ƈ~~~Ƌ 6:",
     "Ƒ~~Ƕ~~~ƘȽ~~~Ƞ 3@bk:0~2~4~~7~~~~c~~f~~~j~l~~o 4:Ƽ~Ƿ 6@ck:00~33~66 2*8=ct 1=b2 2*9=da 1=22.lo 2@dt:00~3~~~7 2*j=",
     "e2 4=f6 2*8=f8 9:Ȼ~~ⱾⱿ~Ɂ 5=g6 2*4=g8 1:ⱯⱭⱰƁƆ~ƉƊ~Ə~ƐꞫ~~~ƓꞬ~Ɣ~ꞍꞪ~ƗƖꞮⱢꞭ~~Ɯ~ⱮƝ~~Ɵ 8:Ɽ~~Ʀ~ꟅƩ~~~ꞱƮɄƱƲɅ 6=c7 b:ꞲꞰ 4n=",
     "pl 18:Ͱ~Ͳ~~~Ͷ 4.2=sd j=pl.lk.ld s@p2:0234 1=px.lk.ld 1.g=pd 1@p8:nnopqrstuv023~6c 4:ΦΠϏ 2*c=rc 1:ΚΡϹͿ~Ε 3*2=s7",
     " 1h.v=sw 1.f=sg 2*h=v4 a=wa 2*q=wc 3=xt 2*6=xv 1=xs 2*1c=y8 1e.11=10x 1:(ԵՒ) 289.16=5n4 3.2=5od l5.5=3xs 1oj@s",
     "y:02cfggo 1:ѢꙊ 6p:Ᵹ~~~Ᵽ h=x52 37=5xc 2*22=5xe 1=20.mp 1=2c.lk 1=2f.lm 1=2h.lm 1:(Aʾ)Ṡ 6=61s 2*1b=61u 1.7=64o 9",
     ".5=654 b.7=65k 9.7=660 9.5=66g b=px.lv 1=66x 1=px.lv.lc 1=66z 1=px.lv.ld 1=671 1=px.lv.n6 1=673 9.7=67c 9@69m:",
     "01efgh 1@6ai:01uvghwx 3!!Ι!ἈἉἊἋἌἍἎἏἈἉἊἋἌἍἎἏἨἩἪἫἬἭἮἯἨἩἪἫἬἭἮἯὨὩὪὫὬὭὮὯὨὩὪὫὬὭὮὯ 1.1=69k 1!!Ι!ᾺΑΆ 2=pd.n6 1=pd.n6.p",
     "l 5:(ΑΙ)~Ι 4!!Ι!ῊΗΉ 2=pj.n6 1=pj.n6.pl 5=pj.pl 4.1=6ag 1=pl.lk.lc 1=pl.lk.ld 3=pl.n6 1=pl.lk.n6 9.1=6aw 1=px.l",
     "k.lc 1=px.lk.ld 1=pt.lv 1=6b0 1=px.n6 1=px.lk.n6 b!!Ι!ῺΩΏ 2=q1.n6 1=q1.n6.pl 5=q1.pl 9e=6k2 y.f=6lc 5=6mb ng.p",
     "=792 1fr.1b=8ow 2:Ⱡ~~~ȺȾ 2*3=8rr 7:Ⱳ~~Ⱶ b=8sg 2*1d=8si 9@8vf:0~2~~~~7 d.11=3a8 2=3bb 6=3bh nx0=wu8 2*m=wua k=w",
     "w0 2*d=ww2 3s=x0i 2*6=x0k 4=x0y 2*u=x10 b@x2x:0~2~~5~7~9~b~d 5*2=x3f 2:ꞒꟄ~~Ꞗ 2*9=x3s c=x4k 2*7=x4m 5@x53:0~2~~",
     "~~~~9~~~~~f~h t=x6d nx=x4j t.27=3vk fnl!F!!FIL(FI)(FL) 1!S!!TT d@111:(fh)(f0)(f6)(ph)(f8) tm.p=1ee9 y6.13=1fcw",
     " 3t.z=1fhs 4c.a=1fn4 2.e=1fng 2@1fnw:0123456~89 1dw.1e=1h1c 2by.v=1jfk gw1.v=20cg o83.x=2olc"]

def lowerMap : RunTable := RunTable.ofText <|
  String.join
    ["1t.p=2p 2u.m=68 2.6=6w y=75 2*n=77 2=2x.lj 2*3=8j 3=8q 2*7=8s 3=97 2*m=99 2:ÿź~ż~ž~~~ɓƃ~ƅ~ɔƈ~ɖɗƌ~~ǝəɛƒ~ɠɣ~ɩɨƙ~",
     "~~ɯɲ~ɵơ~ƣ~ƥ~ʀƨ~ʃ~~ƭ~ʈư~ʊʋƴ~ƶ~ʒƹ~~~ƽ 8@cm:00~33~66 2*8=cu 3=db 2*8=dd 3:ǳǳ~ǵ~ƕƿǹ 2*j=e3 2=bi 2*9=f7 8:ⱥȼ~ƚⱦ~~ɂ~",
     "ƀʉʌɇ 2*4=g9 82:ͱ~ͳ~~~ͷ 9=s3 7@q4:0~123~w~xy 2.g=q9 2.8=qr 10=rb 9=rd 2*b=rf 6:θ~~ϸ~ϲϻ 3.2=or 1.f=uo 1.v=ts 1d=",
     "v5 2*g=v7 a=wb 2*q=wd 2:ӏӂ 2*6=xw 3=y9 2*1b=yb 3.11=129 28a.11=8w0 2=8x3 6=8x9 k3.27=xv4 1.5=3y0 1p7.16=3bk 3.",
     "2=3ct 8x=5xd 2*22=5xf a=67 2*1c=61t a.7=64g 9.5=64w b.7=65c 9.7=65s 9.5=668 c@66p:0~2~4~6 9.7=674 p.7=680 9.7=",
     "68g 9.7=68w 9:ᾰᾱὰάᾳ c.3=67m 1=69v c:ῐῑὶί d:ῠῡὺύῥ c@67s:0145 1=6b7 8a:ω~~~kå 7=6ku 1a.f=6ls k=6mc mr.p=79s 1f5.",
     "1b=8q8 1d:ⱡ~ɫᵽɽ~~ⱨ~ⱪ~ⱬ~ɑɱɐɒ~ⱳ~~ⱶ 9:ȿɀⲁ 2*1d=8sj 9@8vg:0~2~~~~7 nym=wu9 2*m=wub k=ww1 2*d=ww3 3s=x0j 2*6=x0l 4=",
     "x0z 2*u=x11 b:ꝺ~ꝼ~ᵹꝿ 2*4=x35 5:ꞌ~ɥ 3@x3l:0~2~~~6 2*9=x3t 2:ɦɜɡɬɪ~ʞʇʝꭓꞵ 2*7=x4n 2:ꞔʂᶎꟈ~ꟊ 7@x5d:0~~~~~6~8 t=x6e ",
     "h7w.p=1ef5 xy.13=1fe0 3t.z=1fiw 4d.a=1fo7 2.e=1foj 2@1foz:0123456~89 1d7.1e=1h34 2cu.v=1jgg gw1.v=20dc o81.x=2",
     "oma"]

def titleMap : RunTable := RunTable.ofText <|
  String.join
    ["67:(Ss) 6d@cl:000333666 11:ǲǲǲ pg:(Եւ) 289.16=3bk 3.2=3ct 2v5.7=688 1.7=688 1.7=68o 1.7=68o 1.7=694 1.7=694 3=",
     "69m.n9 1=69o 1=p2.n9 3=pd.n6.n9 5=69o 6=6a2.n9 1=6a4 1=p5.n9 3=pj.n6.n9 5=6a4 12=6be.n9 1=6bg 1=pb.n9 3=q1.n6.",
     "n9 5=6bg 179g!F!!fil(fi)(fl) 1!S!!tt d!Մ!!նեի 1:(Վն)(Մխ)"]

def upperChar (c : Char) : List Char :=
  if c.toNat < 128 then [c.toUpper] else (upperMap.map? c).getD [c]

def lowerChar (c : Char) : List Char :=
  if c.toNat < 128 then [c.toLower] else (lowerMap.map? c).getD [c]

def titleChar (c : Char) : List Char :=
  if c.toNat < 128 then [c.toUpper] else (titleMap.map? c).getD (upperChar c)

def isCased (c : Char) : Bool :=
  if c.toNat < 128 then c.isAlpha else (upperMap.map? c).isSome || (lowerMap.map? c).isSome

def isUpper (c : Char) : Bool :=
  if c.toNat < 128 then c.isUpper else (lowerMap.map? c).isSome

def isLower (c : Char) : Bool :=
  if c.toNat < 128 then c.isLower else (upperMap.map? c).isSome && (lowerMap.map? c).isNone

def upper (s : String) : String := String.ofList (s.toList.flatMap upperChar)

def lowerFrom : Bool → List Char → List Char
  | _, [] => []
  | afterCased, c :: r =>
    if c = 'Σ' then
      (if afterCased && !(r.head?.map isCased).getD false then 'ς' else 'σ') :: lowerFrom true r
    else lowerChar c ++ lowerFrom (isCased c) r

def lower (s : String) : String := String.ofList (lowerFrom false s.toList)

def titleFrom : Bool → List Char → List Char
  | _, [] => []
  | afterCased, c :: r =>
    (if afterCased then lowerChar c else titleChar c) ++ titleFrom (isCased c) r

def title (s : String) : String := String.ofList (titleFrom false s.toList)

end Plainsong.Text
