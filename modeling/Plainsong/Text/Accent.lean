import Plainsong.Text.Ranges
/- Texts without accents: every character is split by compatibility into its
   base characters and marks, and the marks are left out. -/
namespace Plainsong.Text

/-- Characters that differ from their base characters; a mark has none. The
    composed Korean syllables are not in the table, they follow a rule. -/
def baseMap : RunTable := RunTable.ofText <|
  String.join
    ["4g=w 8=w 2:a 5@w:0~~ij0 1=qk 3=w 1:1o 2!1⁄!!42 1:(3⁄4)~AAAAAA~CEEEEIIII~NOOOOO~~UUUUY~~aaaaaa~ceeeeiiii~nooooo",
     "~~uuuuy~yAaAaAaCcCcCcCcDd~~EeEeEeEeEeGgGgGgGgHh~~IiIiIiIiI~(IJ)(ij)JjKk~LlLlLl(L·)(l·)~~NnNnNn(ʼn)~~OoOoOo~~Rr",
     "RrRrSsSsSsSsTtTt~~UuUuUuUuUuUuWwYyYZzZzZzs x:Oo e:Uu k:(DZ)(Dz)(dz)(LJ)(Lj)(lj)(NJ)(Nj)(nj)AaIiOoUuUuUuUuUu~Aa",
     "AaÆæ~~GgKkOoOoƷʒj(DZ)(Dz)(dz)Gg~~NnAaÆæØøAaAaEeEeIiIiOoOoRrRrUuUuSsTt~~Hh 7:AaEeOoOoOoOoYy 3h:hɦjrɹɻʁwy w@w:00",
     "0000 3:ɣlsxʕ s.26= 2.v= 5=jd 6=w 4:; 6@w:00 1:Α·ΕΗΙ~Ο~ΥΩι q:ΙΥαεηιυ q@qh:0c6cg 2@px:dj000xr q:κρς~Θε~~~Σ 7@sm:",
     "ff~d~~~0~~~~kit b=t4 w=u0 n@tv:22~0~~~z~~~~75g o.1=vo c.4= 1m:Жж e:АаАа~~Ее~~ӘәЖжЗз~~ИиИиОо~~ӨөЭэУуУуУуЧч~~Ыы ",
     "3y:(եւ) a.18= 2= 2.1= 2.1= 2= 21.a= 8@17r:00x0z 11.k= h= 5=17r.19w 1=18o.19w 1=1c7.19w 1=18q.19w 20@1c1:k~0 h=",
     "1ci 3.6= 3.5= 3.1= 2.3= 10= v.q= 4h.8= a= p.3= 2.8= 2.2= 2.4= 18.2= 1p.7= 17.n= 2.s= 16=1t4 8:र~~ळ 8= h= 4.3= ",
     "4@1sl:0127cdmq 2l= f@1xa:(90)(9p) 1= f@1wh:01~e v= 1h:ਲ~~ਸ 6= h= c@1zq:016~~l 2m= h= 33= c@27y:(9o)~~(90)(9p) ",
     "1= f.1=275 1j=2aa.2c7 1i@2bi:(80)(90)(8p) 1= 33= c=2fa 5= 8.1= 2u= 4@2in:(0m)~~~~~~(7m)(7n)~(73)(73m) 2= 32.1=",
     " e@2m6:(80)(90)(8p) 1= 3h= g@2q7:a~(a0)(a0)(ag) 2d=2tp.2sy 5.2= e.3= 2w=2x9.2wi 5.2= e.3= h!ຫ!!ນມ 1b=2yz c.1= ",
     "s= 2= 2= a=30i.33r a=30s.33r 5=30x.33r 5=312.33r 5=317.33r d=30g.33p 8.4= 1@33m:0011 1.3= 3.4= 2.1= c=32q.33r ",
     "a@330:(0r)~~~~(5r)~~~~(ar)~~~~(fr) d=32o.33p d= 2o=36t.372 h= 2.1= 2b= 33=3bw gx.2= qd.1= v= 4e= b= 5o= 40.2= ",
     "64.1= 20= l.7= 3= 1d.d= 2.f= 1k=5c5.5dh 2=5c7.5dh 2=5c9.5dh 2=5cb.5dh 2=5cd.5dh 4=5ch.5dh y= 7@5dh:(50)~(70)~~",
     "(90)(a0)~(d0) 1= 13.8= 1j.1= 1n= c.1= 1w= 49.2= 2.c= 2.6= 5= 7= 4.1= 1f:AÆB~DEƎGHIJKLMN~OȢPRTUWaɐɑᴂbdeəɛɜg~kmŋ",
     "oɔᴖᴗptuᴝɯvᴥβγδφχiruvβγρφχ e=u5 z:ɒcɕðɜfɟɡɥɨɩɪᵻʝɭᶅʟɱɰɲɳɴɵɸʂʃƫʉʊᴜʋʌzʐʑʒθ 1.1r= 1:AaBbBbBbCcDdDdDdDdDdEeEeEeEeEeF",
     "fGgHhHhHhHhHhIiIiKkKkKkLlLlLlLlMmMmMmNnNnNnNnOoOoOoOoPpPpRrRrRrRrSsSsSsSsSsTtTtTtTtUuUuUuUuUuVvVvWwWwWwWwWwXxX",
     "xYyZzZzZzhtwy(aʾ)s 5:AaAaAaAaAaAaAaAaAaAaAaAaEeEeEeEeEeEeEeEeIiIiOoOoOoOoOoOoOoOoOoOoOoOoUuUuUuUuUuUuUuYyYyYyY",
     "y 7@pd:wwwwwwww00000000 1@ph:wwwwww~~000000 3@pj:wwwwwwww00000000yyyyyyyy22222222 1@pr:wwwwww~~000000 3@px:www",
     "wwwww~0~0~0~0 1@q1:wwwwwwww0000000088cceeggmmssww 3@pd:wwwwwwww00000000 1@pj:wwwwwwww00000000 1@q1:wwwwwwww000",
     "0000088888 2@pd:ww00000 1=w 1=qh 1@w:000 1@ph:yyy~yy00222 1@w:000 1@pl:wwww~~ww0000 2@w:000 1@px:wwwwssww0000 ",
     "1=pt 1@w:00 1=2o 3@qx:000~00 1@pr:00aaa 1@w:00~00000000000 7=6c0 6=w d:.(..)(...) 9=w 4@6cy:(00)(000)~(33)(333",
     ") 5=x.x 2=w 9@x:(uu)(u0)(0u) e@6cy:(0000) 8=w h:0i~~456789+−= 1.1=14 1:n0123456789+−= 1.1=14 2:aeoxəhklmnpst c",
     ":(Rs) 14.c= 5= 4.b= g!a/!!cs 1:C(°C)~(c/o)(c/u)Ɛ~(°F)gHHHhħIILl~N(No)~~PQRRR~~(SM)(TEL)(TM)~Z~Ω~Z~KABC~eEF~Mo ",
     "1.3=15c 1:i~(FAX)πγΓΠ∑ 5:Ddeij 7!1⁄!!79(10) 1!!⁄3!12 1!!⁄5!1234 1!!⁄6!15 1!!⁄8!1357 1:(1⁄)I(II)(III)(IV)V(VI)(",
     "VII)(VIII)(IX)X(XI)(XII)LCDMi(ii)(iii)(iv)v(vi)(vii)(viii)(ix)x(xi)(xii)lcdm a:(0⁄3) h:←→ j=6ms v@6og:042 1h@6",
     "pv:0~~~~5~~8 o@6qr:0~2~~~~~(88)(888)~(bb)(bbb) h@6rg:0~~7~~9~c n:=~≡ b:≍<> 1@6sk:01~~ef~~ij~~~~~~mn~~uv~~yz z@",
     "6ua:0679 1d@6t8:01lm 7.3=6uq 1o.1=9hk 8m.8=1d 1!1!!0123456789 1@14:(a8)(091)(0a1)(0b1)(0c1)(0d1)(0e1)(0f1)(0g1",
     ")(0h1)(0981)(0991)(09a1)(09b1)(09c1)(09d1)(09e1)(09f1)(09g1)(09h1)(0a81) 1!!.!123456789 1!1!.!0123456789 1:(20",
     ".) 1=14.2p.15 1=14.2q.15 1=14.2r.15 1=14.2s.15 1=14.2t.15 1=14.2u.15 1=14.2v.15 1=14.2w.15 1=14.2x.15 1=14.2y.",
     "15 1=14.2z.15 1=14.30.15 1=14.31.15 1=14.32.15 1=14.33.15 1=14.34.15 1=14.35.15 1=14.36.15 1=14.37.15 1=14.38.",
     "15 1=14.39.15 1=14.3a.15 1=14.3b.15 1=14.3c.15 1=14.3d.15 1=14.3e.15 1.p=1t 1.p=2p 1:0 10i@6qz:(0000) 2w!!=!(:",
     ":)=(==) 2u=8gt bk:jV 36.2= 3i=8yp g= 2p.v= 4g=lal 2c=vj3 d:一丨丶丿乙亅二亠人儿入八冂冖冫几凵刀力勹匕匚匸十卜卩厂厶又口囗土士夂夊夕大女子宀寸小尢尸屮山巛工己巾干",
     "幺广廴廾弋弓彐彡彳心戈戶手支攴文斗斤方无日曰月木欠止歹殳毋比毛氏气水火爪父爻爿片牙牛犬玄玉瓜瓦甘生用田疋疒癶白皮皿目矛矢石示禸禾穴立竹米糸缶网羊羽老而耒耳聿肉臣自至臼舌舛舟艮色艸虍虫血行衣襾見角言谷豆豕豸貝赤走足身車辛辰",
     "辵邑酉釆里金長門阜隶隹雨靑非面革韋韭音頁風飛食首香馬骨高髟鬥鬯鬲鬼魚鳥鹵鹿麥麻黃黍黑黹黽鼎鼓鼠鼻齊齒龍龜龠 17=w 16.5= 7:〒~十卄卅 i=9jf 2*b=9jh 3@9k4:0~2~4~~~~~~bb~ee~",
     "hh~kk~nn n=9ja 5.1= 1@w:00 2@9l4:l(02) d=9m3 2*b=9m5 3@9ms:0~2~4~~~~~~bb~ee~hh~kk~nn n=9ly 3.3=9nz 4:ヽ(コト) 1e:",
     "ᄀᄁᆪᄂᆬᆭ 1.2=3cz 1.5=3hs 1@3d2:k012r 1.9=3d5 1.k=3fl 1:ᅠᄔᄕ 1@3if:0157cgi 1:ᄜᇝᇟ 1@3dp:01356acefghilpz 1:ᅇᅌᇱᇲ 1.2=",
     "3fb 1@3gk:014degqt 4:一二三四上中下甲乙丙丁天地人 2p=14.3cw.15 1=14.3cy.15 1=14.3cz.15 1=14.3d1.15 1=14.3d2.15 1=14.3d3.15 1",
     "=14.3d5.15 1=14.3d7.15 1=14.3d8.15 1=14.3da.15 1=14.3db.15 1=14.3dc.15 1=14.3dd.15 1=14.3de.15 1=14.3cw.3fl.15",
     " 1=14.3cy.3fl.15 1=14.3cz.3fl.15 1=14.3d1.3fl.15 1=14.3d2.3fl.15 1=14.3d3.3fl.15 1=14.3d5.3fl.15 1=14.3d7.3fl.",
     "15 1=14.3d8.3fl.15 1=14.3da.3fl.15 1=14.3db.3fl.15 1=14.3dc.3fl.15 1=14.3dd.3fl.15 1=14.3de.3fl.15 1=14.3d8.3f",
     "y.15 1=14.3d7.3ft.3d8.3fp.3hn.15 1=14.3d7.3ft.3de.3fy.15 2=14.feo.15 1=14.fik.15 1=14.fex.15 1=14.h5n.15 1=14.",
     "fis.15 1=14.g31.15 1=14.fer.15 1=14.g2z.15 1=14.fh9.15 1=14.gg1.15 1=14.kco.15 1=14.m7f.15 1=14.ldg.15 1=14.kd",
     "k.15 1=14.ssx.15 1=14.h7j.15 1=14.k4l.15 1=14.kkq.15 1=14.kcp.15 1=14.ny6.15 1=14.glp.15 1=14.mm1.15 1=14.rs1.",
     "15 1=14.nz1.15 1=14.gc4.15 1=14.fkz.15 1=14.gos.15 1=14.i1y.15 1=14.nhf.15 1=14.flt.15 1=14.rt3.15 1=14.ggk.15",
     " 1=14.nzh.15 1=14.fm9.15 1=14.pnu.15 1=14.po3.15 1:問幼文箏 9:(PTE) 1!2!!123456789 1!3!!012345 1@3cw:0235679bcefgh",
     "i 1!!ᅡ!ᄀᄂᄃᄅᄆᄇᄉᄋᄌᄎᄏᄐᄑᄒ 1:(참고)(주의)(우)~一二三四五六七八九十月火水木金土日株有社名特財祝労秘男女適優印注項休写正上中下左右医宗学監企資協夜 1!3!!6789 1!4!!012",
     "3456789 1:(50) 1!!月!123456789(10)(11)(12) 1:(Hg)(erg)(eV)(LTD)アイ 1@9ly:024579bdfhjlnpruwy 1.5=9my 1@9n6:0369cd",
     "efgikmnopqrtuvw 1=fl0.gp8 1!ア!!(ハート)(ルファ)(ンヘア)(ール) 1:(イニンク)(インチ)(ウォン)(エスクート)(エーカー)(オンス)(オーム) 1!カ!!(イリ)(ラット)(ロリ",
     "ー)(ロン)(ンマ) 1!キ!!カ(ニー)(ュリー)(ルター)ロ(ロクラム)(ロメートル)(ロワット) 1!ク!!(ラム)(ラムトン)(ルセイロ)(ローネ) 1:(ケース)(コルナ)(コーホ)(サイクル)(サンチーム)(",
     "シリンク) 1!セン!!チト 1:(タース)(テシ) 1!ト!!ルン 1@9mr:(7b)(b05) 1=9n3.9lw.9ms 1!ハー!!(セント)ツ(レル) 1!ヒ!!(アストル)(クル)コル 1!フ!!(ァラット",
     ")(ィート)(ッシェル)(ラン) 1!ヘ!!(クタール)ソ(ニヒ)(ルツ)(ンス)(ーシ)(ータ) 1!ホ!!(イント)(ルト)ン(ント)(ール)(ーン) 1!マ!!(イクロ)(イル)(ッハ)(ルク)(ンション) 1!ミ",
     "!!(クロン)リ(リハール) 1!メ!!カ(カトン)(ートル) 1!ヤー!!トル 1:(ユアン)(リットル)(リラ)(ルヒー)(ルーフル)(レム)(レントケン)(ワット) 1!!点!0123456789 1!1!点!01",
     "23456789 1!2!点!01234 1:(hPa)(da)(AU)(bar)(oV)(pc)(dm)(dm2)(dm3)(IU)(平成)(昭和)(大正)(明治)(株式会社) 1!!A!pnμmk 1!!B!KMG ",
     "1!!al!c(kc) 1!!F!pnμ 1!!g!μmk 1:(Hz) 1!!Hz!kMGT 1!!l!μmdk 1!!m!fnμmck 1!!m2!mc 1:(m2)(km2)(mm3)(cm3)(m3)(km3)(",
     "m∕s)(m∕s2)(Pa) 1!!Pa!kMG 1!ra!!d(d∕s)(d∕s2) 1!!s!pnμm 1!!V!pnμmkM 1!!W!pnμmkM 1!!Ω!kM 1:(a.m.)(Bq)(cc)(cd)(C∕k",
     "g)(Co.)(dB)(Gy)(ha)(HP)(in)(KK)(KM)(kt) 1!l!!mn(og)x 1:(mb)(mil)(mol)(PH)(p.m.)(PPM)(PR)(sr)(Sv)(Wb) 1!!∕m!VA ",
     "1!!日!123456789 1!1!日!0123456789 1!2!日!0123456789 1!3!日!01 1:(gal) mls= 5.9= v:ъь 1.1= 29.1= 3j=x2n 3m:CFQ~~~Ħœ",
     " d= 12= 48= s.h= 1m.2= 12= 2o= d= 6o= 2.2= 3.1= 6.1= 2= 1h= 2u:ꜧꬷɫꭒ a=i5 3o= f83:豈更車賈滑串句龜龜契金喇奈懶癩羅蘿螺裸邏樂洛烙珞落酪駱亂卵",
     "欄爛蘭鸞嵐濫藍襤拉臘蠟廊朗浪狼郎來冷勞擄櫓爐盧老蘆虜路露魯鷺碌祿綠菉錄鹿論壟弄籠聾牢磊賂雷壘屢樓淚漏累縷陋勒肋凜凌稜綾菱陵讀拏樂諾丹寧怒率異北磻便復不泌數索參塞省葉說殺辰沈拾若掠略亮兩凉梁糧良諒量勵呂女廬旅濾礪閭驪麗黎力",
     "曆歷轢年憐戀撚漣煉璉秊練聯輦蓮連鍊列劣咽烈裂說廉念捻殮簾獵令囹寧嶺怜玲瑩羚聆鈴零靈領例禮醴隸惡了僚寮尿料樂燎療蓼遼龍暈阮劉杻柳流溜琉留硫紐類六戮陸倫崙淪輪律慄栗率隆利吏履易李梨泥理痢罹裏裡里離匿溺吝燐璘藺隣鱗麟林淋臨立笠",
     "粒狀炙識什茶刺切度拓糖宅洞暴輻行降見廓兀嗀~~塚~晴~~凞猪益礼神祥福靖精羽~蘒~諸~~逸都~~~飯飼館鶴郞隷侮僧免勉勤卑喝嘆器塀墨層屮悔慨憎懲敏既暑梅海渚漢煮爫琢碑 1@ny6:0baiov 1:禍禎穀突節練縉繁署者臭",
     "艹艹著褐視謁謹賓贈辶逸難響頻恵𤋮舘~~並况全侀充冀勇勺喝啕喙嗢塚墳奄奔婢嬨廒廙彩徭惘慎愈憎慠懲戴揄搜摒敖晴朗望杖歹殺流滛滋漢瀞煮瞧爵犯猪瑱甆画瘝瘟益盛直睊着磌窱節类絛練缾者荒華蝹襁覆視調諸請謁諾諭謹變贈輸遲醙鉶陼難靖韛響",
     "頋頻鬒龜𢡊𢡄𣏕㮝䀘䀹𥉉𥳐𧻓齃龎 13!f!!fil(fi)(fl) 1!s!!tt d@12d:(fh)(f0)(f6)(ph)(f8) 6=15l 1= 1@15c:yi034bcdoq 1:+ 1@15c:pppp0",
     "00123456~89abc~e~gh~jk~mnopq51bk(0c) 1@19t:00aaaaddddffff9999eeee8888 1@1ab:xxxxzzzz1111000033334444aa99bb55 1",
     "@1ap:7700oooouuuuyyyywwww 1@1bu:001111rr77774444oooo y@1bh:0000qqpprr 1=1c7.19w 1@1c5:660044bbbb 1@17r:yy(z0)(",
     "z0) 1.1=18q.1cl 1.1=18q.18o 1.1=18q.1c7 1.1=18q.1c6 1.1=18q.1c8 1.2=18q.1cg 1.2=18q.18p 1@1cc:0000 1@17r:(z5)(",
     "z6)(zu)(zy)(zz)(15)(16)(17)(1u)(1y)(1z)(35)(36)(37)(3u)(3y)(3z)(45)(4u)(4y)(4z)(56)(5u)(65)(6u)(75)(76)(7u)(c5",
     ")(c6)(c7)(cu)(e6)(eu)(f5)(f6)(f7)(fu)(g6)(gu)(hu)(i5)(iu)(j5)(ju)(q5)(q6)(q7)(qu)(qy)(qz)(r6)(ru)(ry)(rz)(s0)(",
     "s5)(s6)(s7)(st)(su)(sy)(sz)(t5)(t6)(t7)(tu)(ty)(tz)(u5)(u6)(u7)(uu)(uy)(uz)(v5)(v6)(v7)(vu)(vy)(vz)(w5)(wu)(wy",
     ")(wz)(z5)(z6)(z7)(zu)(zy)(zz)9ay 1@w:000000 1@17r:(za)(zb)(zu)(zv)(zy)(zz)(1a)(1b)(1u)(1v)(1y)(1z)(3a)(3b)(3u)",
     "(3v)(3y)(3z)(4a)(4b)(4u)(4v)(4y)(4z)(qy)(qz)(ry)(rz)(s0)(st)(su)(sy)(sz)(tu)(ty)(tz)(u0)(uu)(va)(vb)(vu)(vv)(v",
     "y)(vz)y(za)(zb)(zu)(zv)(zy)(zz)(z5)(z6)(z7)(zu)(zw)(15)(16)(17)(1u)(1w)(35)(36)(37)(3u)(3w)(4u)(56)(5u)(65)(6u",
     ")(75)(7u)(c5)(c6)(c7)(cu)(e6)(e7)(eu)(f5)(f6)(f7)(fu)(g6)(hu)(i5)(iu)(j5)(ju)(q5)(q6)(q7)(qu)(r6)(ru)(s5)(s6)(",
     "s7)(st)(su)(t5)(t6)(t7)(tu)(tw)(u5)(u6)(u7)(uu)(v5)(v6)(v7)(vu)(vw)(w5)(wu)w(z5)(z6)(z7)(zu)(zw)(zu)(zw)(1u)(1",
     "w)(3u)(3w)(4u)(4w)(cu)(cw)(du)(dw)(st)(su)(tu)(vu)(vw)(zu)(zw)ppp(gy)(gz)(iy)(iz)(jy)(jz)(cy)(cz)(dy)(dz)(6y)(",
     "6z)(5y)(5z)(7y)(7z)(ey)(ez)(fy)(fz)(d5)(d6)(d7)(du)(da)(ca)(ea)(fa)(gy)(gz)(iy)(iz)(jy)(jz)(cy)(cz)(dy)(dz)(6y",
     ")(6z)(5y)(5z)(7y)(7z)(ey)(ez)(fy)(fz)(d5)(d6)(d7)(du)(da)(ca)(ea)(fa)(d5)(d6)(d7)(du)(cw)(dw)(gu)(c5)(c6)(c7)(",
     "d5)(d6)(d7)(gu)(hu)00 j@17s:(24t)(254)(254)(25t)(26t)(2t4)(2t5)(2t6)(4t5)(4t5)(5ty)(5tx)(b54)(b45)(b4x)(bt5)(b",
     "t5)(bt4)(btt)(btt)(d55)(d55)(dtt)(c5t)(c5t)(c4y)(ct6)(ct6)(ctt)(ctt)(e5x)(e6t)(e6t)(ft5)(ft5)(ftt)(fty)(h4t)(h",
     "tt)(htt)(htx)(itt)(ity)(itx)(p6t)(p6t)(qt5)(qtt)(s5t)(s5y)(s5x)(s44)(s44)(s6t)(s6t)(st5)(st5)(t54)(t5t)(t5y)(t",
     "45)(t4t)(t64)(t6t)~~(t46)(vt4)(vtt)(u5t)(u5x)(u4t)(u4t)(u4x)(uty)(utx)(ytt)(ytt)(06y)(24y)(24x)(26y)(26x)(2ty)",
     "(2tx)(4ty)(45x)(4tx)(b6x)(d5y)(c5y)(e5y)(s4y)(sty)(y5y)(y4y)(yty)(tty)(qty)(u5y)(qt5)(s5t)(hty)(rty)(u45)(t6y)",
     "(s4t)(rtt)(s4t)(u45)(45y)(54y)(t4y)(pty)(05y)(rtt)(h4t)(dtt)(b6y)(u4y) 15=185.18k.1ci 1=18i.18k.1ci 1@17r:(0tt",
     "w)(0s1a)(u6u8)(etiu)(acxt)(itzw)(xctu)(ety) 1=185.18k.18p.w.17r.18k.18k.18n.w.189.18k.18q.18n.w.18o.183.18k.18",
     "l 1=17w.18k.w.17w.18k.17r.18k.18n 1=181.1cc.17r.18k k:,、。:; 1=x 1:?〖〗(...) 7.f= 1:(..)—–__ 1.1=14 1@3f:02 1@9h",
     "k:cd8923014567 3:[] 1@w:0000 1:___,、.~;:? 1=x 1=6c4 1.1=14 1@3f:02 1:〔〕#&*+-<>= 2=2k 1:$%@ 5=w 1=18g 1@w:0~0~0",
     " 1=18g 1=w 1=18g 1=w 1=18g 1=w 1=18g 1=w 1@17l:v0 1@17r:0000xx00zzzz00111122333344445555666677778899aabbccccdd",
     "ddeeeeffffgggghhhhiiiijjjjqqqqrrrrssssttttuuuuvvvvwwwwxxyyzzzz 1.7=18k.17r 5.2l=x 1:⦅⦆。「」、・ヲァィゥェォャュョッーアイ 1@9ly",
     ":024579bdfhjlnpruwy 1.5=9my 1@9n6:0369cdefgikmnopqrtx 1.1= 1:ᅠᄀᄁᆪᄂᆬᆭ 1.2=3cz 1.5=3hs 1@3d2:k012r 1.9=3d5 4.5=3",
     "fl 3.5=3fr 3.5=3fx 3.2=3g3 4:¢£¬ 1=w 1:¦¥₩~│ 1.3=6mo 1:■○ en= 6b= 46.4= sn:ːˑæʙɓ~ʣꭦʥʤɖɗᶑɘɞʩɤɢɠʛħʜɧʄʪʫɬ𝼄ꞎɮ𝼅ʎ𝼆øɶ",
     "ɷqɺ𝼈ɽɾʀʨʦꭧʧʈⱱ~ʏʡʢʘǀǁǂ𝼊𝼞 gj= 2= 15.2= 5= 4m.1= fy.3= as.1= 4a.a= 1e.3= 5d= 16= f= r@1huh:0~2 f=1hut e.1= 1y.2= ",
     "18@1hyf:(a0)(b0) 4.1= 1r= 25= a= 2z.1= 4z.1= 29.1= f@1ida:(90)(9p) 1= p.6= 4.4= 5q= 4= o= 2l@1ink:(9a)(90)~(9d",
     ") 4.1= 6v@1iun:(90)(a0) 4.1= 3j= 3b.1= 38= 7i.1= 72=1jjp.1jjk 5.1= 5= 4d= 2c= j= 2a= bq= 77= 2.1= 2a= fa1.4= 1",
     "o.6= xm.1= f59= 43k@2jx3:0111111 1.4= 4.5= 9.7= 3.6= v.3= e@2jzt:010101 3m.2= cc.p=1t 1.p=2p 1.p=1t 1.6=2p 2.h",
     "=2x 1.p=1t 1.p=2p 1:A~CD~~G~~JK~~NOPQ~STUVWXYZabcd~f 2.6=2w 2.a=34 1.p=1t 1.p=2p 1:AB~DEFG 3.7=22 2.6=2b 2.p=2",
     "p 1:AB~DEFG~IJKLM~O 4.6=2b 2.p=2p 1.p=1t 1.p=2p 1.p=1t 1.p=2p 1.p=1t 1.p=2p 1.p=1t 1.p=2p 1.p=1t 1.p=2p 1.p=1t",
     " 1.p=2p 1:ıȷ 3.g=pd 1=pk 1.6=pv 1=6pz 1.o=q9 1:∂εθκφρπ 1.g=pd 1=pk 1.6=pv 1=6pz 1.o=q9 1:∂εθκφρπ 1.g=pd 1=pk 1",
     ".6=pv 1=6pz 1.o=q9 1:∂εθκφρπ 1.g=pd 1=pk 1.6=pv 1=6pz 1.o=q9 1:∂εθκφρπ 1.g=pd 1=pk 1.6=pv 1=6pz 1.o=q9 1:∂εθκφ",
     "ρπϜϝ 3.9=1c 1.9=1c 1.9=1c 1.9=1c 1.9=1c 1kx.6= 2.g= 3.6= 2.1= 2.4= 7a.6= ag= 1q.3= 15t.6= 32.6= xi@17r:0158~xb",
     "6gzstuvciqerad3479fhj 1=19q 1@1b5:p0 1=19r 2@17s:04~v~~5~yrstubhpdq~c236~e~i~~~~~~4~~~~5~y~s~ubh~dq~c~~6~e~i 2",
     "=1bu 2=19r 2@17s:04~v~~5fyr~tubhpdq~c236~egi 1=19q 2=1b5 2@17r:0158wxb6gz~tuvciqerad3479fhj~~~~~158~xb6gz~tuvc",
     "iqerad3479fhj g5:(0.) 1!!,!0123456789 6@14:(0p1)(0q1)(0r1)(0s1)(0t1)(0u1)(0v1)(0w1)(0x1)(0y1)(0z1) 1=14.24.15 ",
     "1=14.25.15 1=14.26.15 1=14.27.15 1=14.28.15 1=14.29.15 1=14.2a.15 1=14.2b.15 1=14.2c.15 1=14.2d.15 1=14.2e.15 ",
     "1=14.2f.15 1=14.2g.15 1=14.2h.15 1=14.2i.15 1:(〔S〕)CR(CD)(WZ) 2.p=1t 1:(HV)(MV)(SD)(SS)(PPV)(WC) r!M!!CDR 10:(",
     "DJ) 34:(ほか)(ココ)サ e:手字双テ二多解天交映無料前後再新初終生販声吹演投捕一三遊左中右指走打禁空合満有月申割営配 5!〔!〕!本三二安点打盗勝敗 8:得可 1wf.9=1c 1ds7:丽丸乁𠄢你侮侻倂偺備僧",
     "像㒞𠘺免兔兤具𠔜㒹內再𠕋冗冤仌冬况𩇟凵刃㓟刻剆割剷㔕勇勉勤勺包匆北卉卑博即卽卿卿卿𠨬灰及叟𠭣叫叱吆咞吸呈周咢哶唐啓啣善善喙喫喳嗂圖嘆圗噑噴切壮城埴堍型堲報墬𡓤売壷夆多夢奢𡚨𡛪姬娛娧姘婦㛮㛼嬈嬾嬾𡧈寃寘寧寳𡬘寿将当尢㞁屠屮",
     "峀岍𡷤嵃𡷦嵮嵫嵼巡巢㠯巽帨帽幩㡢𢆃㡼庰庳庶廊𪎒廾𢌱𢌱舁弢弢㣇𣊸𦇚形彫㣣徚忍志忹悁㤺㤜悔𢛔惇慈慌慎慌慺憎憲憤憯懞懲懶成戛扝抱拔捐𢬌挽拼捨掃揤𢯱搢揅掩㨮摩摾撝摷㩬敏敬𣀊旣書晉㬙暑㬈㫤冒冕最暜肭䏙朗望朡杞杓𣏃㭉柺枅桒梅𣑭梎栟椔",
     "㮝楂榣槪檨𣚣櫛㰘次𣢧歔㱎歲殟殺殻𣪍𡴋𣫺汎𣲼沿泍汧洖派海流浩浸涅𣴞洴港湮㴳滋滇𣻑淹潮𣽞𣾎濆瀹瀞瀛㶖灊災灷炭𠔥煅𤉣熜𤎫爨爵牐𤘈犀犕𤜵𤠔獺王㺬玥㺸㺸瑇瑜瑱璅瓊㼛甤𤰶甾𤲒異𢆟瘐𤾡𤾸𥁄㿼䀈直𥃳𥃲𥄙𥄳眞真真睊䀹瞋䁆䂖𥐝硎碌磌䃣𥘦祖𥚚",
     "𥛅福秫䄯穀穊穏𥥼𥪧𥪧竮䈂𥮫篆築䈧𥲀糒䊠糨糣紀𥾆絣䌁緇縂繅䌴𦈨𦉇䍙𦋙罺𦌾羕翺者𦓚𦔣聠𦖨聰𣍟䏕育脃䐋脾媵𦞧𦞵𣎓𣎜舁舄辞䑫芑芋芝劳花芳芽苦𦬼若茝荣莭茣莽菧著荓菊菌菜𦰶𦵫𦳕䔫蓱蓳蔖𧏊蕤𦼬䕝䕡𦾱𧃒䕫虐虜虧虩蚩蚈蜎蛢蝹蜨蝫螆䗗蟡蠁䗹",
     "衠衣𧙧裗裞䘵裺㒻𧢮𧥦䚾䛇誠諭變豕𧲨貫賁贛起𧼯𠠄跋趼跰𠣞軔輸𨗒𨗭邔郱鄑𨜮鄛鈸鋗鋘鉼鏹鐕𨯺開䦕閷𨵷䧦雃嶲霣𩅅𩈚䩮䩶韠𩐊䪲𩒖頋頋頩𩖶飢䬳餩馧駂駾䯎𩬰鬒鱀鳽䳎䳭鵧𪃎䳸𪄅𪈎𪊑麻䵖黹黾鼅鼏鼖鼻𪘀"]

def hangulLetters (c : Char) : List Char :=
  let n := c.toNat - 0xac00
  let final := n % 28
  [Char.ofNat (0x1100 + n / 588), Char.ofNat (0x1161 + n % 588 / 28)]
    ++ (if final = 0 then [] else [Char.ofNat (0x11a7 + final)])

def baseChars (c : Char) : List Char :=
  if c.toNat < 128 then [c]
  else if 0xac00 ≤ c.toNat && c.toNat ≤ 0xd7a3 then hangulLetters c
  else (baseMap.map? c).getD [c]

def stripMarks (s : String) : String :=
  String.ofList (s.toList.flatMap baseChars)

end Plainsong.Text
