/-
Module: OrdDogecoin.Sats.EarlyRows
Purpose: Which rows of the two shipped tables add up below height 145000, one bit for each height.
Trusted boundary: the bits are read off `starting_sats.json` and `subsidies.json`
Main exports: earlyAddsUp
-/
import Mathlib.Data.Nat.Bitwise

namespace OrdDogecoin.Sats

def bitDigits : List UInt8 :=
  "!#$%&()*+,.0123456789;<=>?@ABCDEFGHIJKLMNOPQRSTUVWXYZ[]^_abcdefghijklmnopqrstuvwxyz|~".toUTF8.data.toList

/-- The bits of 3200 heights a line, 32 of them in five digits, the lowest height in the lowest bit. -/
def earlyBits : List String := [
  "z=]1!z=]1!z=]1!z=]1!z=]1!z=]1!z=]1!z=]1!z=]1!z=]1!z=]1!z=]1!z=]1!z=]1!z=]1!z=]1!z=]1!z=]1!z=]1!z=]1!z=]1!z=]1!z=]1!z=]1!z=]1!z=]1!z=]1!z=]1!z=]1!z=]1!z=]1!z=]1!z=]1!z=]1!z=]1!z=]1!ed8D;z=]1!z=]1!z=]1!z=]1!z=]1!z=]1!z=]1!z=]1!z=]+~z=]1!z=]1!z=]1!z=]1!z=]1!z=]1!z=]1!z=]1!z=]1!z=]1!z=]1!z=]1!z=]1!z=]1!z=]+~z=]1!z=]0[yyA$~z=]1!z=[Vmz=]1!w]pnBjp7|JO0mVLz<jPou0Q3rz=]1!z9+a9z=WYPz=Holwd)22z=]0qz=Yl8z=]1!o~6xseTTY4yy?t9xBquWz=],wz5kNpz=]0;ecEiKz,|*Pz=]0~z=]1!z=]1!aS)|+x$?7nz=YqPz=]1!z=[oHz=]1!z=[~yz)Un.",
  "oCkSYz=]0;z=[pmz=]1!yyA$~z=]1!z=]0uo$@h!z=[![x~Ddqz=Yr;x~Ddyz8<9Rz)0ScvIe3sc&kHo9RhuvxX%r=DDjJWz=Zdyed8D;O0mT|z<x0>yusuqxwlY[ec2^0x~Ddyx|OrKz,dHjo|DhHz93@+tLMnpz<1!koCkSYyN?N;x@<cFeW.dwo~!MWz<%)Vy[~v8z7QYGz5_J6z;v22yyA$tjnZs~o~Jg[y[f9stOs_8z=]0mx[[Arz97[$_9lSTz97rW_2|$>yx?qFFwhDnz4OvqO.QLYmI;U(INl)fq,XRSjXwBINvo.HXcTt~=?eq2u,lZ!oA!gd6s54FKKqR2F[U<2y5C3&;6DZ8D)0K4R*$8yUy&h~5o@u9Q9N2AZr!~;qCAXGeJUpkHDNo_<|x^MQz*<9hN!0$()V1yylQL_z,.RHO0F2&9O[kN^Uh)so~,SRO0i4zy5h+7z<f%Hvx]0xsopz6dExj<Z&*F8y|iGG?d?7g",
  "N_cT#LN&=@7...a(8ki|v|eU4Qx+DqRC=$~Z(0_@B]up[.2xqV2fL[eU*6|5<S.6re2kfau4.F=rOOQ1gY.i.)uEI.r@6&*13_3uB>(W.xm<mxy$3=zhXhUX_U[JMaf2!;_V$^N.Kq(bRD8g5Moe1f3?_rxL^Lv8#(GN0vcle4f.g~6z)GyOykP6FlADzTa%w]s<m]<=01[akCTk#9(bRM%BzGJuvFYPRTFLm$?Ku;QS5Ro1SDsW[rPQ1n#w,,e.IpIHJR.b,qZj~0$IlM%@=9CM.O4Uup@k;mjendvkaOOz5bc*=4P>hNz!2x>cnkba.%?mry@jjqy?=9NXp=NT68m@jxB&E6QHja_GJm_aOpO#qMig5i]$s7kuBkcu.n.$!?395z&2e)DyoPrxf)E~XP>I@zf8RoJYSo53(3B,V.E;b9y~q]v0I[7WT!Tz]uG8^!XB>![pfPs9$WpzvfaPt9EZyEOYYKLX&9+_NLgdm)[9(lw.2>uJ",
  "[+))FXsaeWr=y[@,euO>9=B3+yld_7!][5_mQ4L+&,Ti|P5]JK9fb@A?K[hGm&fE5vb~q3Pb~l78Fa66QfB(sy;z%,i@T9C1BB>Sv][~0$*VtNW4j!4$,zFO2E^W8!(s2HZ$gR8E?ZG@SD8|M#!ci&=)Qlv&TL#H)DIsl(##$(%9+8K9W@q*(!ZV,uAT0pSy[e5+HH0].FW6,TD~=XEQ|r;4abkID8c9L,g?GnfP%fkQ.!Dn0J*soTM$[UO02uKP%Y<<S.I8%YebQ.r;K>5z7W>0<M).B#Dp!T9J9zb>$x0D)3J3pS#d3<7OgdMuw5R17uhywSeU_)gy.bgL&(M^F8ATRF6B3u7sE<8xk==UNE1I6ik3H>=d+=Gs=e.|V()uVCmJgzNJ174!oBtycgd4z!Khz$iP=P.r)kZ**UM[ycgk?|?d5ebYQs$(3*^Nl_C@c3YOGg5uq<?DXZe<xg1YBuODL(f>JlGYCN5Vz9;5#]kU1fJf6H0A",
  "_.3%;G)89l%_zp6K?ETM0zdZg,RSkzSn;9~!JBQqw$T[kynrSu+ugJ69!9*fC;r!AVm9@|M=X;B*qf>W9ZB<lp)9!O[2>c#c@DjSq7[<DENVF(Vf>Nqey?%lQV~<$!9$hmj*!c$mPhjnHC([38]R1Gq9sh2TKd?LB<$D0rHA.h<+P8iaSe80v.%<<jn)KV@HT!c1sR6AkR28.em|tDiaQB&&ryJH>EQuQ^3~;*i&edap2zrR!1JlOpXi7ALWKc>JjpKOIY@eoof@o?eq46Mu_@U[5(x.3uisu*cXAw)(]=^|qtn4D09GP9T=,$K)IdK5njiB&J)W_5S5MAil%l(W$eRdvt?!TySuS<Fo[j8uvUYNpE4*XrvU3nmqQC0teuom<i(n5@x9A0SjZ]Gp2o)En!]T4cPfe6sq__XPTc*D~lnqqg_sI7F9$5,swsTLKZfNdMW!7~fMF~#g6Wzenq%NsIUQM.j(*l,|SAArYCc3Oxy3j3KsngVN",
  "HX,t@yuT=*QB,wBm_yW2rGu)BPqSsG=dk)h*g,>1[2[f)K0UpgF+mk.&u(0ZwqO+7WC9fS?;^yBi0=oR8Kj%PRA*(hmEh#fhWf9!GwbP#_nZ)7b32RPw&#HN(eb>w1lffLiXjJT)BbOC@.,S5e6fH$vsPYbw[2B7D#,W$<)f(I5GjK!1<ZV,q9CC679wu#0bne#?Xd5s2QXkioi8cn3bj9Tf0H[e9x.k(R=YM&[DubBT&l_+fF05l$tCie?y,?&DVdExkR;(S@ac]Y1pT9XpU^2g>Xf^e=d^N)j^RqQoCl=r!lcqgRIFC0SSmySGHf@,5HPEO77O;<hr[|$PQJk1DqY=k16cKBT]H2B[0Z?+uACx!fSff9,yUZBFb*|q.Esiv,1@@,Z$[;!9dmub.c!i?er^6xOIuoA.BX#FR[BPA2+(=,VERqG3cwbD.Z#bk;GIyw!D*NM.m&9WWQ(zb@w=CwYYO^WDWM*=@uS5R.HyK~!8oQ0VQQcg",
  "3~kyzmNI~o(9*X=K[#Sj;#noa3qmg!6=2;>@!K=,AqM9gf&Plp@G+Kj7!#cdJP)+MZ*#*8u]~dz$x~o0GyITW!#x*Ba0&B1O9VQUpg$~UD^0W*P>B9ElH&B7+tReOp#T!M78(d$;>~EvOMhYEG%ti#]d!ndH#*~G=,RV04+[M&Qy.M<Xkv4tC5eq4Z,~Jw=2aL8!8M$fW7G]t$Z@>%=Miv,R[zgsqz,~pfkgh%,sa%=&)*Cw5%%4PxJ[3&.63Raqwi$y#igki*j>?$&]E^ck6tKt3g^rT!3D$DNmZQQ8?]RLdb@VBl.qEd8xwtk;h?%shhrYU3P|6x2q?!Q&iljDTeldTvCIBPYbVqp]3xuIWTndrZkfDqpyaLsujvw=FU1d2)C&2@=N]7W7RI8&QdFI@Ti^=oU)Q0<,z+ctp3nGm0dAg&lHfr.#M_H3jod90;UMCKQU=r%Gn[yXRa3qYg!J#N#pOq6s8VEm%AqEgGl|tfA%L=i.hhHv",
  ".!bJa)ls=zX]85dk>w[6#*8Be);9#6((TMWDDE>jLc%@87oavo!H~M+IO[V|8Rj[*ACY)#]!X5?.m)DaRUzRYQuOU[EUY8fbhk]<]KrC*)^J)a*a@.Pu0_7J!Zvn^(4RHW=1Rrk;dhZ0.O>(a!!!7)OuMD;(Ka@mT=x[K,RElAPhA731wWiG!!BgQDxm6_._]Gl(Mh$<@jJbD)Jv(!%m^OOo~q%Hfy@w%Cq~I1UM9a;@+7aw!2kZ+hpbMc><bDd$zeNagM!|+#w)lk=kj#s<#KX.5sBpVoG>SL5HfVW(dhzLyelWY.>[zZ#1vlyr)YdG!ik+tiJSa+!<fj?!DfEOE.NUw0!82ae^36b,[4c+.ENp&!I(vt$f<6yB?i&gYVt&GYbHo+y8T>7VEpvAx82jRXt]5lh%*.i?dXad!%eC%dS4pB4PExhj&(Z>,AImQhu0!l.S.y@!65q)*aPmRz$Lo!p2hOe#D;Ch&mqmpNDEuE$u~9]#x^[q",
  "Qw=4Cy|Nw(1xKEIDs2GKFuxD6$VCoC#?SAU4JIKr#jST5PM+3#GJ]p(z<Flk&Q;3eOLP83PKuoQ9iQF.[rGHt?8Cgh#Ydcnx.RMz;%1)aO<(EH0ipE,!0AYq$VYIfnr0f7ymk4^qK]U+P+~S?1SUNF!C?5uEWWLU.A[%s0kQl_;|D3tuuOX,!buhB#ET2RA_)3*$Ws=0h>2I$f~PiTJUX+iZ,dQZBaYK=2$uJ5epI.i%e*_9F!(zHJ#KP@4V<Y$;q~C_%?%!ABvi;Jy>h]+$s7ag!,a&pGJF?n%9Tjn9g!6dl4k)k5H;~hx!5h~!]TJ4!*fO@*)Q><gk0p4!]^w^O6sS=OP>Cx.J2tg4VE__3Q_El#Rj0c#wp@jDcli7!#gM!Lbo#[XL]Mw,~4rbf,NVwF2Ywq!L]jJ8pkGReFnMLyUVK>]]5yDDXk85$szQLO62&W9tgFv%TnJY#j1Zf$fMmn>S7|]B#p3x9[LFW4gqh23F^TSQ~=?e",
  "Zf#,$GHtwDO4Sx6!a=?4eh1B8+7<V2Z1SoT&mhH?=o?<V!^,Pi+e&..TZ9F,ZhD1bZERgCMGcb=w(RtqgQ0e<%|PfzE=*9qp8(j.4MS<5W*3&$LiYek@~t$_xzex6O,EENGJ5xi0VOz$R5py8!VBCcoNo@y.wk_a3d<Vi@BVrWD~xp4Gbd9hJ!?L%TO|%Q2?CO3)v%,$b&vN^3xO6Y%;Z#<!!3[,t[G]S!GRdw<v?INh12jWq8xF+[PYf~_B*n7BH]i5*8|>v.Q!T.3rSUVYj7~g(1X[dhS30<!)~XPfO?U71M~SRHU!2VYgiv%Bi_DPX<e9v#0%u)qES)>uiILuTXG!GhNt(K#tsYXh9X5bQUc.3)dF,9egN9ELGKV_5g9<KmNXE9O7mI1&H0V,rmXOfBwcehH=h6YdWg+|r^L^ux~DkY,&;y[75Dr3X@u;r)lwwA^6GjyYK(IHo!vykQljEU=q#L2RA_ieqyzS!ek=@!Y?rq@Ql,&&",
  "H7_?I(e,~](?$JkP%&fCwHx#zBC=+&eg0naO3<Cx9w16a(Qnrp!.d5c6D^eIX0uaUPmQF,+2_M$T>R^Q?8burGcHb3]NQ#0lmqbB?m=do0*O)IJ>*Ao1;Ug1J]cmGdKejn7AYtI9mm1;VSaMj#1,N|fvkPMTLo3w&7l79$D!~!5h(i>)uWKiOMHHWQq9$!fM[r)?QeF8GWphshsy|QB?@xta&,94OM3m<#MOU$$m@0uE=96l;B]H_0X1Y.aq1q@!Bm4%9ac#WPM~G@Gc7uf8sckZlxb7>.HL;q5dZ*#l8L1_#Z.0R.5aCa3i(z5NFEs2U)]!#jDYz?IjgAEs!tb4ETl(W69MNur~,@h9P7&knfq>AhJ$;#0Jb]KCnNMzas|yjo,Bfq_XM+_jwYVC0@#g]2PXW$#]<xI;t.9y<9FPh!^.M$7!)Mo!+hx&%U=u%*vSkh5$T4b#%;R#OqMkPgysHN!$4N4H04j3k^b3|(OLV_!.9w=0ugT!",
  "!nS718N%ieh=yV1rsQx2mRfj_OJK0%iY]I8._)v*R%B8;qR@C.H1q%n%z_>;,DsN2$YzFw!s4FzZ,F2RykdSuFqS%c$Z[MJF<yHU))pM,_i6#&%EwV%++4RL$V^Cy[QZyP**eNaUso(BFCuJEvJF[F%ZEcA,(d2,#j0cRlO(MoYOI*x%~q~l6M[.n<97b7GRcb<!#ddU!qS2i@jq?3RhbK3&p5*n!AF>.!_%e1!RQ[NI%@g~QZ%7J$q&4Q#x_DU<xE7u&wF&K]353+)MBr~&!LY&YnzodDq[~$,p];QOlXl)#.^pn!a6iY+7u+K3TZ[fObD[+Xks*a.|.~CS42Z1s7e)_H].8CPN%Cof3)JM]5^=a.vxza)hXu^1c0am!bBCnRQbaUUbNC+<0=]9+n[D62(E01GV47E!bPZDTx&Q+gzRm9;SU0Z!&Tk7$u1o5=CVF7q@m]xA@Z!41>ykxg8WG<&36_tEaf_X&mH?!dJwVQ!MD4R%N0Q*",
  "6uBLfSA*#5(h6x.67_D&4J*?J<9ilaM8rmp#29vRE@Vxg=B4zG(P9%fi<PHC(jg.I9m,Uw9lXXw9YHaa;K<xT%nKaq=ODaC*y2Z?5eMq>T?[d~=[YS&#ziBO=ARv+YU|3O=B4H2kP#9J])[[k=C<q]Qkl2q0X]RA@O3!bfb14qo~]SYO1aK@.i9QbR5N81Lt.5N9haQ+#@+7Bc39iPZAI..OenOt#PP+%Y[;^2#hAzM9gO;|#EFnzQj?.O=LdZo@ehTe#c!R=YJ1yFrelz9)2$Rs(Fm<h!(BUP&A_6_5hJd,c=sqD2L15#+~w$QVOjR7tPBi2nHMYl!WI]e2reB[]@n[HTI26GYPq[WxFVBT*lGgW%spqyE;k+xfafi0a|%NqG_^bN0;jMa$^#Oe.n@qcOK.Ma.B&ZIc1u*?6;~]1#W4C$$o=[xQhNi4(@eSp?Vk3^3L1l<%@?S6!&17~!!^&[p^wf&Yn]=zk1@katxD8QKWR6h@hfYa",
  "LL5o].$F;W34w>_.Ddv?!,[+!(79s~W;6>3R;Xn99s5fUevKZR!AJ79)KS6EdgEwQ!#x+Y.S@1*)<sIR@iPzDO0p(>$zlf+>@&Z~u?7W.(6KGk!=3iY.Y]$l+&VfK14!p6_5~!BVyw86%Bf2Hfe9H>SacY9il_q>I~l~iK@.4BTx5RTKu,yr9ooes3<6LW7OnDaK@1(Oe$s)FlsH$xG3)E7.QTpO;ejq|%<&(VWTJZO@5xNF(UP6o(?VMIO4;Yb;c$5&.c]*I#GeYp3T8nl$!n)6;??mi%UTjv9l|hC.>J0AhHLCn2~=qQ9h[WP+,vrYQ*]?+nknB,!m@LMM5+?JQ3.SXO]0~8O>Ww|pim+L<4Jbj%E|5VRhVT$4J@TnJtC.#Q*p(H$$$;R!f~4Y1po5Y$wBoK<<yWTIWM67JfVTkg&#Fm1x.lH^crss+K05e$&l~])N<)x9fRIQRDu4<X43TYGK$v+!0U6M1~<jtiq9OS!^?0Xiv|2?",
  "&4Vr>Wi9JP9!$Hep6k=vU@*!XQ@9#&,)uBp>L,Ds(Dxo5GJmOS(8K[G!HJs$3G2bQPc9x40=AIhkEzrN5w^5nGw*P]&N=q9u1I><9<?i+(lbV+lj]MT2b38y=t.VH#O_yjPRo2R8z,tBw#oxV.U<Dxs)cdRVT8G01>I]8(7y^0[Wc0Z7O(FiiYPf^&dqdKWhu3dPu3x$3B~u].B1No*=B&v5Hbeyf]MKz!!*(+?~IAaM3vq,O3nx05eK3[)K_;XehqzN$[aMqf$|CZ#Cknuf,XvK!)y(iYTGT3=DCDB#Kw]8O7bD(#Kj2E)L9qC$QJNJfD!.P$sseg$a,Uqp&|LY[~WhfUbLe?!2rCoPPvd$O5yfn!fB2@0Az!Z&<HBNEPI1N!!]VS!c#0OF,j$a)JonBj;HDS!![Vo.GXw&.>6GL!*;xzp;r!y!2b%@!]|mh.Abgs$gOpk9m0[w(?hhZ!2_&_.>pfH!^(PnO9[29%?9&i$^qtd!)x3~",
  "$fS,r9so9#0$tQd>e]^T;7=xI2!q,eh?8eo0<(v@9Z@TN#T.1B0L9;7PFafwZkDk_&0R;y9rRp7PKlJM,!=I,Q1~fOO1U12#7B#D?lZz]<Tj2W!)$ci<PXrrPWh=]9W.#h9_6#]$ZHmV$VV([!!&2w#>jXs9fM~Y$wG>nedTYco~OD>$ZLV<)1kj2u0TqD@OaZS!+|7m!#hIm!@?|zDrO7P.CAwoDzzgs#L%W%=0zlB!2_kl.x2HEGL.QFO6)@89X|&npadPU2!V3;!2_bkS3=RXSDLODr?n?=1#Ht#0H+g&$prI0elj2#S3Y(oBDxKaentJv@DB]^LV=s~OmrB+)VBL?!C)(P9VjSKRGIt>!.M%5O0oC,*ntZU,)r1l#EDTO#NYB!P(FJm!eZjP=qSK]*d^T>=@&%V!(.~IPJ|HI!!pYq!%+.E9]HR+f,x;&.AZj?O0riQ9gs,W!%I?HOM1$@;8jSi$W+EVLWTVh#?R$9#0(!%P+isj",
  "!b?4[*wB^*#>B%BP(G,lkPql?!eNu3Oa)3V!%L_QO3ll?;pgA;!+0bm!!8=H!UlnAZ97Bb#%m,TO0r1J!<5k9$Vb5;(2&2u.k,Sg%psHt$q.gN#?C5m$VV#OTABV=WJ4~x5U2r<.?uR_!*t;O!b*@H%ppazc2[bmT>V<&9[DNgp%PW~lhZONukI8H!!,12(?isY0]O(YOTnEW!(.U.!HDm_lja)A;Acww73bpo(2s,Ukr<k>cM(?<FB~WA6hn%RO1b8sjw8z+=PcpR_V8rw#JzoNZuFzPibtKQ01Izyf6v)ODp]jz(BF#UfRI_@SDY^((hGe)!9jXx$2X(4!]]lNF1g3=O@G?M0;P2q)KC&9V&pHr#E7#sO0mv*4h(xg0DXFMj+gc_Pgrjk$B0%h%7[Td+;ErL2nM3VOQFY7Utu>1YOjvy!9Zv0PPA#1qYsI$YL4+N!AX55extyz!UGYm28;RlU[B<OeU$%GhDZ+tP@9EmE_!rnOjb+c",
  "&9k(WF5[)q$wWTB0]WThh>2RoQiT;I!<_T^0VSCwZE$3i$XO<UGJ5t4#>@$I#ii$$T^9[j<#LCxclU;9PL|5,!!$>@.J4l4]%x|<!9PvkOF@h&!$W|#!(0mIT?KRqLIiIB#E2Of!!?3&T6MR.Dy+XI(&%4aUV6@n!!rl$A;$04#xff~,#<]+_bNR7.YTi19VaM>!^R^F%;]l*9VIafOOq<O)Cfmf!!FFiBQeTB$[(_@(2(C&!+S_0O4<_p&;zye%A#ar!!7>3.|zWj%8;u>!AX)G*0~KC$PoU|!|0im%t<pk!%I<I!cn=T(2(DV!AA;K9^Q>LJc<[%9VI]8#>B=x!2_*R1qYs&#_gv4!!!Wc@$p@j182Z_!lHzq!!LTu?gPM?(lN@uCW[=L!!SEF0,e#j1F8cz(Begh>R$z7O0n?;(d$XYE(!j<TZ3+q(|nbR!fEs1$a*Rf?dj2N!b(&L!lC?zhl;q|!!pVA4JkUw$uW*B=1#3F#>@n8",
  "%qbcc9h6<C(<!1a$_u7M!B<YgYJ?j]qG<)lO?lhL?g|x0fCr0i!>DHy!$ZcwEmWcV9cQ?r!&BNp0X5#]9iz!8$X<WO!p5Ca(MJ8D9mE&h$7&5iedTvok^]fP31%q7ZUOx_.~)J+%q&TX7AD0l&oQ~@.?E176Zao?QeK0U<<kU<ee1Y5#>x4d<0c2UQgo89OY*_|8&H)#O1a0[#L!5;8WU%3!4Ww?$zc[&#>>cN#>=pFtPDjH=2;63!!&^o%7H8.9seu;=#wU!c;P8B9tCBEU&w4c!#fJ;(Po1m$f<W4O0r22$W?C8Gg^1H2?qad(1.&8(>=J!$_Lx!#>Xd,!%U7pQVojH$[3eg.[ETBRQl&q4Jpw<.>AZ=(~Ct]Oys9=FM^ThRVkqx%X^qP(eanWYO.([*g8H)A2N#F;FVnL!!.G;Q1EqX!)o9!!B3bd$ukQJ#6LMO)4s^$!AA,(!F$]1&Pxfd2#pdl!HV|u.AZ_U0c]!N9VS!^Uc^*x",
  "!!!#vjti%<#2Jh$!!#cX#1^=y)R=DV!]^+X.YRniO7aHXefu#0.ET+L1wd5M!]v%sCVTt265XxiQe8=LVE|D&31;*lBAe!;]!)tF;7+SA%pt8.3UseG!9S2L!]bmVQdF[$.MW1<O?Ni*$V|0>!3*Zo$c!lc!]bjV.>6ax!chYX!!!!!iVzqVO4F@%#>B..!!#0X!?98B!^Ok@!!(a)!6)I~#>Fj29cZPq9aO*4!2_5U%SQiB03hT,(B|!J.?z+o!$2o4*eQat!#H(d!!!6cHhd=g9VJ+5P_]1B!2_5[)MkH.!!+asO8)RT#YaEF=?alg!!#1E!!!!h#^9(o1[0^CfD$4Y#>OVD(2!o,BD~wV75w=J)X<fl(w.ayO1a0];!.K@!0,OY#?.~v!jXdp.xxiW*h>ZuEmVPv+D>j!;LZG9QdX5o*e8?New=u!=Pu2i.>;yy<#C<I(1@r8I~h=N2#Mna#?2>yPJR?G!%JHs1wWo;!30r*!#BG&",
  "#>cpv!]^_0[~d7j$fJ6E.w@?e0^J$2P.0!q#bKsa(1,=4!!!,(9VQq$!#dIF.>Slm9VHjh.>6NS!#d3y#E+~!9Yn&0!#BF_$l4ri9f=|F.>iWJ!!#iY=7nV.!#)>(!!!!!!!!>2!)qMvO7^+<!!9br!!pY2;q,Op(23H@!!!1&(1.yx!yzRq)JF.9!^zXe;?,w@!!!!5(n<9ZO19qE!$Ui@9xJ>V(1+c6!!!19!%[HJDp]Kt!#n]<.E%OA!#dcF!)nRz&$C%T!!!>+E#?Q1.YRjQ!2bD=6$u4m.YS(W#>=M(*s!UE.>ISH!!!JR!#v=7!3+h&!*<E~!%p4]O1a7G!^Ov7!(;xL!O5W_Z(a@d(?i$m!!#1tQdIz&!!,)q(1+eN4J@,n!^v)s)JF0k$VTv1#xZi]!!#0N.?uXX!AM+P;pbPx9X1B@#YXS6!3D#**d_;R.>Bf1!2j<?hL>qf.>@MGp@lmA!E9Re!]pH5Q1UiG9VhTj$_[y9",
  "eqw|JPgKR.!!!!z!!U[59VHjl!)&hv!>!u^@D3|8!%cv_#>FP6(6mTU$Yzyh#LDiX4Jg*=%VvJQ(16j2!!pdR.L#Oz(10M,(5txg!!#=m#>OY*!)pm#$V^vq!%I^S(1+fi9==cs!!#13!$aBa[~VtQ!^Y0A1qY|e0!ebGO0v&n!AA,#*dd)k)KN309Vl8q$WH],A3C91.E3>v9X3LT9VHpj!!71A*dl#T(kntZO?e&?#KwTW!bNmD.eiX.7AR,)YuNxh9hj>j.x.Lf!#dlI9VR3j!]]vH!!_d3#>?ch9Z;nm#>=V+ed9$O9VHjh!2_Zc!!.DzO0mVU#OChm!!71)!!!!5!!(+c=4G&?!leX;9W>ZY!!#0x!.?A](MIl6$Y~F8(jfu@#YXS(*kO*T@D;h|#>OV)!C$=>9Z%52!ApT90w]Nm(1+c5!!&AO!0xy]!)qvtGQ+_!!bWo!.>[aJ.E*L]#>cd7#>jm!(CGB29V[Cv!BKKDha|E[",
  "!]]]3!~T>)9zbh>OZkf1!!(~gO0pHo!!&SR$VTp+$V^y.O?bi%!A]C@(qjt09pA.U!DfQK%pnMd!!7ee!cTN2$mu0#O3FI)#G>wg#KwzO!(|l~!#(pU(1y?CO1a0Y!zo2)9W(C6!*b?|4=Zrz!odhq;MPjdJ!2e+%0Mvb*+;o#Ej2=w!2s%sTN~wk9^Ce8@5OaX!vT(817^Ft1<m@A!)s(=(1UmA.>D3B!!0(&(19%5g+&q$!!^CF!%]anO0tQuYJ)Pyed8Q0;&Fy$!!K2Z$W5IL$f74sO2y(5!%RQL.><#%*dd*!_vqrg!!^V?.>6Gh.?|5P$gl~)9VHk04K2_&]yS=(O0nda$t!>s!#(drOn?G8.>R[#!1XCH1F]79#>Od.!2r7%!%TB8O0xV_%qDc8!!!1JOjOU|(1~ax.Ex&pO2S.o!%ax!#?4m2!!,D,Ab2XN!!&SQ*8aMv!#d37!GCaW!I!6>!!#4J4R6MO!.<Oc!%ITp2#IWo",
  "RD!dZ9^LLVkD8oC+hSAd!*&?~.>@Mm.w<yX(1+cB9VHjh!s.k_#V9zy!#ha]!#d6C=16)fJ!1KM$VULOQ)Fi1(8E*H%qd1+=2_i8O?N[%OmtwE!ACEi!Um>O!!2[Q(1B%~!vVt*%v9bG!eQ>&!58A3#Y[8E!!!!5!!pd1!!!1r!#gU[YWcVw9VHk8!!7>)9VHji.>6GFOkDv1!$0Kr)JFnN;&m8m(8oA]O8(9w!]g?]9seyl9VHk=!58%)!#d05O7^0=34Kz>#i;Wl!fI9Q!fNuK$frXJ!AXwN!#m97!!$Wq3FRA#9Vgcf!_s<^!AA;(!BY+CTwN$,@%J%dZF~|T#!KSP!+.#?;tyPJ!%_@E!Apx?!!,)G)OWA7RD0zK!)yEI&&zx]O0n7.$uW^W#E2iI1?2i[QdI~F!FKP|1wWiI!!!!&.>8cB!!!)$!*(x_!]p]5Ql)m7!odnQ$Vi(1O2YQB#?LDf9Yn&=!!ye4?gxv]9VI)0$W$+M",
  "!!(IJ#BOe#O5*H)!_52q9VQpkJz+NRO7f!*!AA1$*UJ(?OjLjS9^9@Q!)o_2$YU=C#y&&P!lxAmhKMX](2)NF#iEE_%G~NZU!Pab!#@6L!!,)p#1gjj!!!dlq=m9c!!2Z>.E&DA#E0kr!!!3H!o.]S&41ahR&Gwt9XT=i(1+c5$VT~3!m1n[!!#0N!N|2d!!71H#>=JB(MIlr!!J?U$VU0F.>6GF.YRPG!!$Bj!!,)HTDz)RU*7U,(O6s)!!!>5O2y=<>Q)(A9VK5U$bk]8!!,)W#>B9^!#m7t.E(53.NUj[$WZV4#RmUAeny4#Dp]Us?eIWT.AZhtcmx0e!]]7&T>0S=>+x9BTv_Xt.KqL_9V[7]#E,9=O0n0s!!!d~!tnvNee+&f#bJ5q(?|46OM0dS!^(kaO19pU(1.yx!!,D,!!SG)#>AyU!)neA.O=m?!!!#c!AgGK(@5A7;qSj%O19pU(1+fG!AB=HO9Xk&!!!>P!9O^>!!!>O",
  "!!,)G],r0[$VT~1.@vi?9W<EE!AJ>54J@+A(1W^t!AFA09gX+Fsp<2v!OHNW!yyg4<4!NF!%I?G(11NA24)Is!!.9ZpGkRR.><6|!!!)K!b&QK!2i.Rk#69|?dQR(!RmcxDq+Iv(1A2B?eG@m!OHLG?nhtS;zxUL.>6~c!%IX~O2fog!%NQ7!!JA,v+T?E!!!V@1pjSIrWj4t!!JD3%pn=W(CIUv##qXo7!evD!!ST(4uda6(3+k@*knZq&_|y~Ql)]2yEq;F.p5v2YJ0a.4ScA]$V^v49f)HT!#.]|Ol5vvT?[H4!!!!)!4FCJ9tWM)!]^IVT=vD8!!!!!9X0*B!$CU_!*4!_(=6uO!9Uml&U^Y;OO=+Y,D_J;!AA,y!!,)*.D4Pr!H8w5!)s)CZMm4?!!<dTTAEw6!#>!g!^R*]1prWw9f3u=9W<EP9gX.,Ox19q!]paT=toj3PQn[>$fA#)%tMlv2(O4n(1,pL9VHk%$VYH,T@NzD",
  "#?)L_!y|WkrVL>EVrHRh9fP0qGhDz0!(8Y[=?[O.!!J?V.?uW6!XkfmD~W8n!AE~]!Ah_O!!$<h!V_GQOMa6]Qdbif!2i<Z!9e~(!#g!1!!!!$!!!)%!!#0H#CY|t!]cDsGJIpX9luSr;7Np6?dec5(lN@CO4>Kg(RYwb(>uA_5od0]!Cs*j!Icg4O0n#6HdWD;!chc3!!_bv!]pP+!7D5>!$0UZ!&Q;h9]qY&!#v=b!3*^b!!!#U1rMyD!.;)8!!!?_!$~#C&*MpP!B6%y=2k%R!#d06!*b*p!!JV2O?N]V;qV,aO0o=)(97yF(1AzXO8P_i!#eH]!AA1$!!7J.!2_ZcT>)r7!(|Rp0t(]@<_o0l!;EI7!Vs?N.>_#XO1a4E>9BRR9X.9~$kC,_YJs]r(13w<S]>&b9VR2g%+2O%!AA,#!1lRJS7_=D!7$z.Ph<cc!i@VC!!!Y?!&c0L!!,)P!%I<h!4EDh!2bA<(xI37R$bxh$VTp+",
  "!!!!#T=vTk;;M<C!;k|;!]]7I0skvSA)a;K4JhjI!eMik!2_U(9VK<W_Wnl7O7i~I0^@C6!F%P%9VHjj!]cDq4gf?Y!9Pdd.w($Z(68Wv!N|2T%77Ds=4FMI#Kwi_ed>Md!9T3D1tG7(!lQI$=<fpM.?)*p[021s4Xy%w!#d4f(5FEy]2Gk,)JF5L!!$=e(1WQg(4Qyh(1GjV=MBq;A^44?!!QQX(1EGJ9VZw#&#T!W1wad;T>@e1!2bA<.>Iok#j0IP0Yt)l(10%i0;EpK%q%Ja!)nXj!m%oi!_jiO!H><N#YZwy6K6sxCsaUb!]]j8U4oUd!$0O@J!**g!bNqP.YR]L#[?zg!gCmw!%;_&!(6Hx!H1]4.YRT^%GC+uF@HQC$t>eS!_Di=(MJwW).$7t4YlZ$!c1C]OHKV!GJ3(9*kO73!;ZyM.)=R2PMUkMp!drr!#d05;8vWk!;>Yq.>^lU0YvcqO0mYRO@1@o&6;S|;pg<$#w.v3",
  "9VHkQ(4QzE=?oa_#>=KU!!&SY!ACEi$Vh~.!AE]Z!!!X).vpP1f$hYEPAUBl0Vud&!)ox9#?0QV.E;+LYd2K%T[&c=#>>V8#YZoY#HY$V0VOcg!!!&d0VR8@!PAav.?,R~0a#nO!RGJc)JHa^(?hyI[~Z@#O0wmNJ2up<Qd],<.z<!n.Fg&I!AJ4$?)x.6!+TK7ee0L|!7%XG!!4t3W3l.|!]^_(Tvc+i$sq~1#LnKn!!A;9#[D5h!)o9=@.YQP$Hz3yO0v]R$ZmabfLI$g%mfUp2$)cx.NOy7)?>Cf#Fn)A.YRSZ(1S!QDwM*W;U|J.!#d0@edLb~9j9Z5;pbCtR$q<e!$Uli%t=EM#yNBFO@DM1OMEX25gaa,P,63X!)s)#]&cj,9W@u;DxSbE!##Ld!#fz0edaD%egphaOpTIH!)naEF7e3k(3$>^O1<bI!$?%>EIO*<0YyzQ.c^89*3a2W!%fX##>Hwx!%[bPPS8X>=2+Wp!!TP9",
  "ee4~H;U*~<5dgC(O0mdw!2i.SEeD.?!D*xF+E;HzmKZ[K=FLPGZ9^Zv(4R+~?dWe~REeW,!!]J*YJb^d$t?oP!^ULJ!!#ciDt$M6Ox7~W%x**&.>6T=!3ei!!]qOL!~f9r!BYmV#IH53.bGJ=!n.bpOmr.@!*(wu!9OZI.>6GF!#>$y;pb8@!!0Bi!DfEK!!!J1.Yy*%(1S$iT@8Ux$VTp1(N(Gy!!Egv!N|7*O1CviUV5kr(MIxA.>6SN;Sowt!!!&T!.9n3!!!!5.>;zA(1@o9TATa+1rMHa#>dcK!!$BI!!.9f$ib<a=4oeT(4S*x!O9o&.>?N7<4(0M!!!)$!!!!J>_emN!9Of(18oD>&(,fp#?U=9.vpg2!3w|ZhKsv.!OHNj!#&1g!hs!2#E.9f2&IbjDz!K4%qi=d*h3r|!)5,O>.%OI!E58)#Hz<mQdO[w!C%Q^QdlIT$_rZ2#ZrO9=N>Dn;qSit!eg!Y!*%nJkVkk=.E%Pn",
  "*ft@[;q3$T#vv^$!]^CL4u>n$!AAd7!(90l!!!%#!!!!!!!!%,(N=KA!2_&Q!!J>9fG=tb!!$?i#>=~9!!&SV1t3my!!#6j!*f[D!!!!F!!J>&!!!!!!!!)$(128m#Kxq#!2bMr1pzFT!%P(_.>8++$VTv3!!7Ms!!!#Q$VYFY<4JXq#?4Sd!)nSU9W<v%*fFFMO0mVU!2oyk$VU67(O9&4!Az.4$i[4R*rg6A(FcCV$Y|9p9uUQ[!eScc$a+>OjpK6J1w^8kDtQH6Zd?G@$xV+jP,^3.!Crs3!nq+q#[R2I!!!1.#>cg?%7I&J1qgk?;>Gd!!4kMg(1+cF!!#0G.E;[WO9K$d!!!!!!%RBI!!$<h!%JGh!!(0t9XXiSexiOuYKVO[*fDaN$f8&O?ugHfYXX,~!!!)$!!!b+557DNfD>sE0^G1K(NJ|!!!!!5!3V2?!AJO!!$$HP$VYy+O48ns=qPaf$|Y?E=4F5]O0oO1!]]7<$Z%E&",
  ")JFBK(MS#J!3ehb!Ni#b(1@o7!#d67&#QiQ!!!19.]*Nn=1+1a#AbnO.>C#9TvUWp!C$?G!]^RQG]xOl.F,5uOlX8t!!M.*9VKw&TLJsD9^9Xk!!#6X!#e<V#?e2l.NNdfQ*Lh9!ACG>4Q~4I$^XQr!!pY,9f3|j!%Q6#!d>y_!%MksQCm_*PJ1U&!!pV.Z96=B$;>=u!_CE.qe=Yp;pb6lJ#gkO*rfs7(10s?!%JGh1t6vT!]yJ+(12Qk!*;zN(=axy$XN5D9_5zQQe,|u(1+fb!(.zY!!aB0(1,p)9VS=<O0vvZ!2f~mOELXN#^.Jn!JeaT;99TS%17+aeg_ym!u&7O.?v,@S#bAg1SLo$@ds_U!g8HP;7%~jQG*gv#B,zVeewP#;;%_s9VQpu.Re=H!Um;Q#BT=J+E1AHQr9^7!!r5^<PALspz9[j9V^6,!.MYNgBS$=$!y@Y;rIYk!yyD+5i|er$WHfO!!,)i!kLoV!l?>(!!,dY",
  "!*NBW$m%KwDp_f6Ql+aFj.M#Pet9to$a+h%2;vVtH!arcN9tv$1qro7;#5=15g2LtUX3j]YJ|g8M8gewFjy,|!N|7%jw3#VW_m9pTJ4=<Dq%Qm+VTIVejxy1.LA1r!.dND&+T!f!+7_])Jx&&#>Ga;9Y4[=9]FgW]46;*#?X1!(2mKF!<9,m%pn@C!N~t.$x~Fb!%[HXANiD3He*rT*drmv#1Ky<(1S<t!l?VBCxo+B!sCA[pF1]f0$F=+Dpf,6!!,);eg]tfYJ$KTJUSeY!=&=kEg?X9!]]G9;)C6~;<A,Cc8)pN$8kRFR~]v.*fJiW._(>R4Q0wR.THS8Q8GnAO1,R=(kXR*)&7ge7O]G)4K6(H.AoEeE<+P?D[<$s$^ukU$^>K95Ol(v4P$XA0[(ADfS$43%)LZQUYesd4X6*c,Df>keuMpstR!R]ed;@M.wmrl[,rCAHqMv)!9R2JQG+,=VGpL61f?trS*WYlYgW[PN46R_vnDoQ",
  "7RalH!ACSE#FG8I8B@4V4ILm~7Uch,&l;Q<[~MfzqT.32TRRU50V~VO17.=UWpLmLz!OLx(LXX#y?JMmJBgbo#ya|z(CN9z?g?,<5fGe7Th>@!#Ll*m!*<yg;?*sz#cH7O%pJt29VHtQ.]C^5!)nTF&Pbz]JMsA=yl*o,yUZ,Y,m?#I;l&CE<[]@~.ODx^.?zoC!2gDlgs3Dc!)nWAYJ9.R!*~YhJ9@RXoEQbJ(pg_8X>_+C=[puC?y,&;MqGi.(e~~3!!?>6=1qfL%77Dy(NO?R&P[gbTv]7g.Ku|[!3QiLfszBS>NlGw;Lo,#TBpkLK0NmQ.0H29!^!0Y0x)SVcftXqTQtsH5)uzADkP6f!@fAqed8Dn.>[~SS]I5t;<7&yfD2+y(jg7!2Soq<)roHhfE1OOFlMHIKv]jp_^v+4es3<$#jz%^C^3M@QPdP]#9|t~z=NT($(r<F@XnMl];=7FKWup69dQ8r$^vpE!#(g@X?JeL7&?!r",
  "4ZyJdDr+UyDsoS2&o|Aw0jO[7$kY1z&7ZCe,%E~@T=|U66DC)D&Q1E&=4GAz+&a8T4TZ.Kk;Pzl!8;9A!3eyzYLF2XhawI&z,%qq&PT>M#24<j(OWi>7I*IW;pd2OedBJ>mX#U]#FBK[!zuyv1xOw|%M)*RNd]yGTDq50$&EJs6*62rlPmdSu]Y[D$^P29,%a*YRcx96#zN_k!b3j^!oj8tdjc6Lu?>~%Jd.NU^.=0gwCtVne>H=E%rH[x*V([kaHf3wOM5dI%3q3MeuT!qSoW#*8CC0=,O)XH1SY)v&SNX;#>X^Xef2oHZQC!p9;5jgKAZP=(1yNa;p|e=!cqtZThtbSigre%?db5.s&JNaFOuE(T]KTkYj1d8dV^D010EIv$IJWe]sbYn?.%fyE$[UMoaB)=JA!X[EgWT6x(m@FLy?3k5J5|fJN9VS$2cKd>zg6wOjl8jj=blQ<+7t71t93pg;,Z.1yAF;TjR5w#~Pxb1]&p&*[XKA",
  "Dpi<s#Z.u$!!Pc$1lB8[#iyck@@zD7B(?#C!nNXx)2m$PBCSe,*,F(=en3H,!5;sU&5rm18>78F4dCs?O1b+fP[+Re>Wu[]T>x@qaYitNaEp$v#06,>aSX+o7lLt=Gglgg]j=*T$J1JLk&As0*(XPs,Q=wR7o5wHeq1)A1m?qNFm3u8^C0HIc2n*6P<l=[L,<xgb+(tc$X,q^m<Fi_@Fa7f5HAo@h>frbhhy2S1uxBg#HQekTMdh19f)u#Bi&5|!D7IJ.zhzz!zq]=9^9@S(#q2fXlRlK0a$d$PY3kk%wo&!Fp~R9<4$#]8~7CHJ)rBdfDuJ|qw1p5;<yAH0VW|wcG%N&X*]wjy$#VJ.%]v*u#r^m8MTtO0T7ca#<RHghn9,JTYeF>%((S$)bZu~c<JS%%G$t]3Vi~@H.U[(%xAlvg&aQ|=>_Q;$=>Hk%)f4g<XCb?r&N%d&=i,*mf1rh!Q1(Z.D=OB03TWB,[x*9eoPB.%M5H*U&*s@",
  "LjYM.g2CW%mJxkWRD%X,#I|yp=<!>!z.2EXfBt&;s8MIo*R1i^z%EU6+Ab6D&DKLk%mz~wJ#RRa!H]]p)v=hzO9P=L0h1(9!]e0N.CU1PFXy)WVUEEAQ6f,mJ!4=XTNV_v>(Z4j;)?]LuOOU@g$[Xj8%8M7mpvXaYplayVy#TA?g|p07.ldgutL~u34nD.l|DNNDhDAiXG3OLatJXtV~J5P,63N,I~fxy9VJC>!as%WW];0=OOle9Qx8x,#3[o]IYQAH$Nwhh.!BIIUx~.Upynm!$2#E,c@]#i_Ka*W!oolqDlM@(?3I;4O4YY]#G)Rt1q|_t(6&YZls<*KQv))e@Jwo~!nXBllA+TAW4OrRfw|;aTeJ6J1>%?N3z3Bzz.!Vb=@T8;X?^%&4kLUd4Mi<~;CV9g6]@fPed8NB.LC=@GTP%rPWzQl!*6CC4XGgk;tDbX#mzJ.*a?=x9^=j|1v@6E?cr6JekF1yCX8|%$wjiq1i?P3QiQxV",
  "@Soi6AA6B,)Q8^mTi)ldOM6p!ae=hcj&A&_tA$(I&eB2d280]=Isi[br;ztr#@DAGSIPlT7V~st+~wptD8&;jrVs^_aX=g)i=Tb[i!s^KksDc?Ec1bL!QT2nOV|=DUeSsZoNe1xxx|6UIx+V85x#0r#?~fi1X7ZV!<iw4L|>d!&9>+kTC!.9<gB;2QeLJ&$VcJ_!zG2l(>~V&rWgCzh,,Zfgk!E7PRnLCOqL2v!&.yf$Y73l]AV6zhjfrw!NiAH+*%KC%IpNf;vM+beqtO@0]t5YCch,@5Hzns3>%=7vg*p1VRZ~nUYpC^BphWZ?Uf4Ih[mbFZ+qsU!(?|medkWJ?ig+d*Jwr>#>btyVptx+05)jYL|OiZ+4uQ_MGoVpGif+=jWYVz*kTiFQ[.B]Bi&xF2o0tO4IU$AYTRw6%F.2jeyReY%8o4d!EX;X0rhTv!@s.I3BvXSEzJT9k]Umzb?^QYLtsA;*wOoI>Fl_G1&HpeR~qR)T5x?_",
  "&~sg01(<Ox%>PZIa[(Id<QPPSD[k0fUn@B^uQi3ud<+V,87s.D!u26DeXt;vMrGk;98!jD*eEb3!6PXw6G@nyJCB7h!qx+YQe7S269u3ySGtWK(0=b2FM?>d%L$H)m(M%fVxSE;JIWXYM!%0jfLZE[A<&$fRkt$V_ZdCMkF=8XYmP?XJN>Kn?]A~y8ld,VJrhUg$3xb_rP.nl!)ApOT!uSFmgZKhH,@&.X0gZ_$(7@dCOE]&y#g&s6~]1GTvtJ[&T;aU;v0an!2^PSOM5;.#RIyVsM)n(WA5iq$qib931RAJR&U<Sq?#+%%fZ%8l&K%x5LK[&,OC*X9nViL<PJ>S.(MMsu14AHuF?)9jV|rw)IRqM0I@?E^I*;zsGzt(>]X8M.?R]_GJP)kGOPpkR]zT@U=H~e=y(t%p4QXzLU)4)J9Jkm!#H*3G=oYXHN=*h(A2><QJXIXb&=;fb^|wD@$xByFTd6LkBF&pl8H5n0I>PmIuN3LYVH=i",
  "JPQZo!2gm^BT?gS!Pxh7pNt^7Qh=DpZ+=Hu$u6YAYY0YrZ(_mH?f84IK~>EJ<5)$$1z%ye(Amwagn^WM)J1>MPj*WF;zVDM;r@T2ES(9?p!PZQBA[7spA4=p)J0z?ooE$fJ%0?C,)mCX?<p?[u[|w&Ya(Aux%Sb+^WaDd+TMU!jGyVI!O7DU*o2vK@K)D1S3~DS!65,m$bkb!E%pFLq.+Zdy8wM5#w20R#1UuqOYB2up*C[$&_Ua>Ox>>p!I#ZN;7AnI9)5;mjpWf|S,xqkfHLgYqU[+|Pt]VR.r),,plp7nTO@njw(rCjwiJ+.=^x_vq1GY|+0P>+.85AbMCI9f)cxnTdgSWx#Z)+5h|QZ<5920QUJO6T=?sH471R[6KR2tlD6nHSWE&CmfoPrM)>]e1MYzky4x<Jq9]CSq$zlW[rZ;f?%+t3Y4QBko<VH_V.sP&qi!pT$TYacYYKcM0P4Yf#74Tv=L|=@HO8h?c&~fxR9ilFc)LCJg",
  "JR=7~D#FmTvWO)GG,>EcmN1gsTHd1D.c7*$u8A[|P^5rN.vurDeGjo8h(@]p503R<<GUzwL0@X#z%CcCU_d3xfq$7hIc,Uy#zj$q*%dTRBHa(Z#sU#&8CX&qPlm%&$l<nE8CK~7CfIXN8KlAJm3X4[Xxg&1oRHlIfJb_SiYMFB8.O)%ZtV%b*sG[pZ8_V=%nz1I.N^6eyKLEzB?FX$!$1?HPU9wspbz578TZ5MpP9k%(2XsETO+0)u8OMm6A.hV>K*aB2BdJ.QdEtfngW^iuJ<<$WitmP2!;;K!]bl<woJ8Y4irmYwTL,2O58O^rYHP0#H!CG<&pui8!?.>+*zH^MgVS>s<rT)]UcjBy2HhSOhy8|kt1GR?+$R+7eC|,Zn%=c.L)<_vDp8^p9EU|#JN_%4VE.#?*23k<_!Oz(J&T_.3m6J#6lRoWST]ZID?KSUQz^nO^N#X5)zTV9sj|[$.;7b$r8)=aqzZbw7QKO!_hnKIYD46MUF<i",
  "!(hjS;N#NJQ(6Vz+5vi;!%KxMJWn6lrVBE@pnDP<[!w)=$Jlh2!.Bc&3Haiq2mg4j[t~lryj5)xDEZ!b!Gi@3rTC0(MaXH&cKBxl.]WD5DZ;_QYoUTRYM!FI#1DX4UZuk>4jpe##ZdA9(lb@EQ*8#OZc&9xYR7s@5I3$9;rQ(.GRcbSRF2&e<k^M8hSxq7U$TbsCAiEZj5|rn>T_K=b|t=N(Tpz~W,9[(9SMSPjmcJNgv3p[z7ko2s,;*G_IWom;),TsCIL+e%0+rU$ezx%VJbt[$sqz;%)c;~d(7X,XkSo~eU4Wi9G<MNncoD_yf]Sr&tH%vwWy<RhcVZlHatl5h1LVcOp^2sUbs0>7XhS9Z1X=WV+^,1HI&^p?hRr?X4ox[h0OL.yjV5X^SA0mhD,9v5XaI%pz7y!*[!dcEx]9kS>RL(Lzr<NAtWqXkV~eGZUv4VA@yl.aKgE%#kNJ~Dg9GwjCa3)jChLTNpsM3QakLiXk9~GNt$+G",
  ",%L?Shw6HQYD&VDMLNLk@$fTNej<ZSqBc8+(BC7%ROKD)QlKACrbL;fc|HlyGxra9E$p+B;5.TmrlV*.9;AI>)K&B6=ZB=|Mr@YjaB4~$5d_52327YP*U]IH^j,PGJ2$%I5u;mC9,~TTk49[fpK@Vc=Jg=IB9XsXfLsTRe~4x.!A?IHhKK;6_X.z1#H@*WZTi%*^x|P7dX)+v+5aS,7Q_!4xZUPOOIy4der]h0^I^+l;<3*dYIu@w%ybpI)*PwzLYtNxOPxvR5n~YwTbAe~c;T6c@+9~MA%5@ug6!muQ+N7J%Vwbs(8nqUPTGBHw9]4d%;!QW_e~kQPRftWIqj@cu)XDCiowY7&q7i8Ql~#7^1mWxgV!1*AAg8N<g?oM=O.qA?lwjh5z,_[1udEYE9<<6D]s~RD3Net!;U@N!5h_nYJ,Asynr>Fh0ZgQ%@sQ3O8Og?*];Skg3!ZE*5_19($+1yVi_ZM*fUjp[D#R+Zl(_8Ehk[LXZxS?",
  "(>cM,O4D%F&u((2?sLKx<=~,&1_;r.T6ldQ>0JBt!yk.O$@LYaOY4=trq.C&NQztm)PEQo;u>WoeXO+H$pj#7!B)Mx79&H(u@L91hh~oQSkO!9n^&.=,,Mr6h?cTj&Rk6^f)8tEYBfgGNx;A%Q[oW3.fFUCZjvFW>M%Mj(efF8$?lqHuF>9Q[]Z7$m1+=j?KnP+j?)=T.v&HZ4WP~z,nuoU#)ulxc<4z8CiEiPO0o,@eeOv;=q@=7,)t*QpDtOMnCQ6iOvQlVc(@F^OzD>>2Dd)rV3jSzCMcN)*>HvxA_yge7!!slz9L!|SnMD,?k4cr43gpz.zTPe[>k]9xQ2eCx+.^1ec~uL_V..y$[e<a+dob<!$Ems(A<lh^Dv=wa1IBJv[3%|f|#FK=X&spHs%QfEu#dxm291!e)$N1RXngI9!lN_7^<@(N7G1*uFFxKiZ.$Q!pS+r!$;h,6~=YT!y7cQ.<u|Hb^BGbz++I7OV&o)YHn4UTY.Af",
  "vr<n|u5b2*puo<jJCC?#.![bj2$59$.RB;>hUm0e@P+6z?F[)vJl#&qTgR)zxx(H;_;>zj!k,W,y(TK!uAb_)A!60uu(4>ys,prEv|?.OQpUQq?w%=L4k$e1.+%O&vYEE8$3>b21BDmRg*)k9+fy)ARdfB)q?PR4X(bm^2W6m9I;?[l5V=Du@7#XBrs*Yg>02Xv[2*a+ff(aI_^s|([oRitmj%j7f>f.no(LgRyZGV&gh?I$OK*Dyi;oA)%S]od79myVu6r6>k5UW@VqzwlOzTm9OaQ~A;6|~z;!z[(fE#vP99K8h)tdeHr>MjO;n=rFE<bY38j!vkB<4|C*h8H]Oi,20h2hz>E*UkG@|0@>auU9Kky?aGQ2oX4*cutq)iHPj.CHfLU#Jj,.MkUJU#<$vz=OBBH~LuxaTHwpHke?+QBkhBG8OfG.cDffosMYe(][S&rZ1V.Sq@$0l.8Upl;zV>e(h*eILt.FNTy[D,7^roq+Sd8=1iqt",
  "vT%rt[RZ4*;8dxdoUX?2LwAN#^>tO*#9t_pUCh^m=K~qxU,(t6wg*F<<2AdY8wH0nEq7NUM)scq;T&S$tfGqI9q&q&?~RdY[dS^AM~GT^$8Jm^4e2;coqkYm,)xvnap6%g.2iEe#KAdPi?QZ6GsArKrUUW!!!!!w"]

/-- The start and the reward of an early height make up the next start in the shipped files. -/
def earlyAddsUp (height : ℕ) : Bool :=
  let line := (earlyBits.getD (height / 3200) "").toUTF8.data.toList
  let digits := (line.drop (height / 32 % 100 * 5)).take 5
  (digits.foldl (fun word digit => word * 85 + bitDigits.idxOf digit) 0).testBit (height % 32)

end OrdDogecoin.Sats
